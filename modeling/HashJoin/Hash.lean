import HashJoin.Value

/-!
# Hashes

The CRC-32C hash of a key, and what the hash table takes from it: the top six bits name a
partition, the top bits a slot of the directory, and 11 bits of the low word a tag.
-/

namespace HashJoin

/-- One bit of `crc32`, whose reflected polynomial is `0x82F63B78`. -/
def crc32Step (crc : UInt32) : UInt32 :=
  if crc &&& 1 = 1 then (crc >>> 1) ^^^ 0x82F63B78 else crc >>> 1

/-- `__builtin_ia32_crc32si(key, 0)`: 32 zero bits after the state `key`. -/
def crc32 (key : UInt32) : UInt32 := Nat.iterate crc32Step 32 key

/-- `crc_hash` of an `int32_t`. -/
def crcHash (key : Int32) : UInt64 :=
  (crc32 key.toUInt32).toUInt64 * (((0x8648DBD : UInt64) <<< 32) + 1)

/-- `hash >> (64 - LOG2_NUM_PARTITIONS)`. -/
def partitionOf (hash : UInt64) : Nat := (hash >>> 58).toNat

/-- `hash >> shift`. -/
def slotOf (shift hash : UInt64) : Nat := (hash >>> shift).toNat

theorem partitionOf_lt (hash : UInt64) : partitionOf hash < 64 := by
  have := hash.toNat_lt
  unfold partitionOf
  rw [UInt64.toNat_shiftRight]
  show hash.toNat >>> 58 < 64
  rw [Nat.shiftRight_eq_div_pow]
  omega

theorem slotOf_eq {k : Nat} (hk : 0 < k) (hk' : k ≤ 64) (hash : UInt64) :
    slotOf (UInt64.ofNat (64 - k)) hash = hash.toNat / 2 ^ (64 - k) := by
  have hshift : (UInt64.ofNat (64 - k)).toNat % 64 = 64 - k := by
    rw [UInt64.toNat_ofNat', Nat.mod_eq_of_lt (by omega), Nat.mod_eq_of_lt (by omega)]
  unfold slotOf
  rw [UInt64.toNat_shiftRight, hshift, Nat.shiftRight_eq_div_pow]

/-- The slots of a directory of `2 ^ k` words. -/
theorem slotOf_lt {k : Nat} (hk : 0 < k) (hk' : k ≤ 64) (hash : UInt64) :
    slotOf (UInt64.ofNat (64 - k)) hash < 2 ^ k := by
  have hpow : 2 ^ (64 - k) * 2 ^ k = 2 ^ 64 := by rw [← Nat.pow_add]; congr 1; omega
  rw [slotOf_eq hk hk', Nat.div_lt_iff_lt_mul (Nat.two_pow_pos _), Nat.mul_comm, hpow]
  exact hash.toNat_lt

/-- The partition of a hash is that of its slot. -/
theorem slotOf_div {k : Nat} (hk : 6 ≤ k) (hk' : k ≤ 64) (hash : UInt64) :
    slotOf (UInt64.ofNat (64 - k)) hash / 2 ^ (k - 6) = partitionOf hash := by
  have hpow : 2 ^ (64 - k) * 2 ^ (k - 6) = 2 ^ 58 := by rw [← Nat.pow_add]; congr 1; omega
  rw [slotOf_eq (by omega) hk', Nat.div_div_eq_div_mul, hpow, partitionOf, UInt64.toNat_shiftRight]
  exact (Nat.shiftRight_eq_div_pow hash.toNat 58).symm

/-- The Bloom filter tags, each of four bits. -/
def tags : Array UInt16 := #[
  0x000F, 0x0017, 0x0027, 0x0047, 0x0087, 0x0107, 0x0207, 0x0407,
  0x0807, 0x1007, 0x2007, 0x4007, 0x8007, 0x001B, 0x002B, 0x004B,
  0x008B, 0x010B, 0x020B, 0x040B, 0x080B, 0x100B, 0x200B, 0x400B,
  0x800B, 0x0033, 0x0053, 0x0093, 0x0113, 0x0213, 0x0413, 0x0813,
  0x1013, 0x2013, 0x4013, 0x8013, 0x0063, 0x00A3, 0x0123, 0x0223,
  0x0423, 0x0823, 0x1023, 0x2023, 0x4023, 0x8023, 0x00C3, 0x0143,
  0x0243, 0x0443, 0x0843, 0x1043, 0x2043, 0x4043, 0x8043, 0x0183,
  0x0283, 0x0483, 0x0883, 0x1083, 0x2083, 0x4083, 0x8083, 0x0303,
  0x0503, 0x0903, 0x1103, 0x2103, 0x4103, 0x8103, 0x0603, 0x0A03,
  0x1203, 0x2203, 0x4203, 0x8203, 0x0C03, 0x1403, 0x2403, 0x4403,
  0x8403, 0x1803, 0x2803, 0x4803, 0x8803, 0x3003, 0x5003, 0x9003,
  0x6003, 0xA003, 0xC003, 0x001D, 0x002D, 0x004D, 0x008D, 0x010D,
  0x020D, 0x040D, 0x080D, 0x100D, 0x200D, 0x400D, 0x800D, 0x0035,
  0x0055, 0x0095, 0x0115, 0x0215, 0x0415, 0x0815, 0x1015, 0x2015,
  0x4015, 0x8015, 0x0065, 0x00A5, 0x0125, 0x0225, 0x0425, 0x0825,
  0x1025, 0x2025, 0x4025, 0x8025, 0x00C5, 0x0145, 0x0245, 0x0445,
  0x0845, 0x1045, 0x2045, 0x4045, 0x8045, 0x0185, 0x0285, 0x0485,
  0x0885, 0x1085, 0x2085, 0x4085, 0x8085, 0x0305, 0x0505, 0x0905,
  0x1105, 0x2105, 0x4105, 0x8105, 0x0605, 0x0A05, 0x1205, 0x2205,
  0x4205, 0x8205, 0x0C05, 0x1405, 0x2405, 0x4405, 0x8405, 0x1805,
  0x2805, 0x4805, 0x8805, 0x3005, 0x5005, 0x9005, 0x6005, 0xA005,
  0xC005, 0x0039, 0x0059, 0x0099, 0x0119, 0x0219, 0x0419, 0x0819,
  0x1019, 0x2019, 0x4019, 0x8019, 0x0069, 0x00A9, 0x0129, 0x0229,
  0x0429, 0x0829, 0x1029, 0x2029, 0x4029, 0x8029, 0x00C9, 0x0149,
  0x0249, 0x0449, 0x0849, 0x1049, 0x2049, 0x4049, 0x8049, 0x0189,
  0x0289, 0x0489, 0x0889, 0x1089, 0x2089, 0x4089, 0x8089, 0x0309,
  0x0509, 0x0909, 0x1109, 0x2109, 0x4109, 0x8109, 0x0609, 0x0A09,
  0x1209, 0x2209, 0x4209, 0x8209, 0x0C09, 0x1409, 0x2409, 0x4409,
  0x8409, 0x1809, 0x2809, 0x4809, 0x8809, 0x3009, 0x5009, 0x9009,
  0x6009, 0xA009, 0xC009, 0x0071, 0x00B1, 0x0131, 0x0231, 0x0431,
  0x0831, 0x1031, 0x2031, 0x4031, 0x8031, 0x00D1, 0x0151, 0x0251,
  0x0451, 0x0851, 0x1051, 0x2051, 0x4051, 0x8051, 0x0191, 0x0291,
  0x0491, 0x0891, 0x1091, 0x2091, 0x4091, 0x8091, 0x0311, 0x0511,
  0x0911, 0x1111, 0x2111, 0x4111, 0x8111, 0x0611, 0x0A11, 0x1211,
  0x2211, 0x4211, 0x8211, 0x0C11, 0x1411, 0x2411, 0x4411, 0x8411,
  0x1811, 0x2811, 0x4811, 0x8811, 0x3011, 0x5011, 0x9011, 0x6011,
  0xA011, 0xC011, 0x00E1, 0x0161, 0x0261, 0x0461, 0x0861, 0x1061,
  0x2061, 0x4061, 0x8061, 0x01A1, 0x02A1, 0x04A1, 0x08A1, 0x10A1,
  0x20A1, 0x40A1, 0x80A1, 0x0321, 0x0521, 0x0921, 0x1121, 0x2121,
  0x4121, 0x8121, 0x0621, 0x0A21, 0x1221, 0x2221, 0x4221, 0x8221,
  0x0C21, 0x1421, 0x2421, 0x4421, 0x8421, 0x1821, 0x2821, 0x4821,
  0x8821, 0x3021, 0x5021, 0x9021, 0x6021, 0xA021, 0xC021, 0x01C1,
  0x02C1, 0x04C1, 0x08C1, 0x10C1, 0x20C1, 0x40C1, 0x80C1, 0x0341,
  0x0541, 0x0941, 0x1141, 0x2141, 0x4141, 0x8141, 0x0641, 0x0A41,
  0x1241, 0x2241, 0x4241, 0x8241, 0x0C41, 0x1441, 0x2441, 0x4441,
  0x8441, 0x1841, 0x2841, 0x4841, 0x8841, 0x3041, 0x5041, 0x9041,
  0x6041, 0xA041, 0xC041, 0x0381, 0x0581, 0x0981, 0x1181, 0x2181,
  0x4181, 0x8181, 0x0681, 0x0A81, 0x1281, 0x2281, 0x4281, 0x8281,
  0x0C81, 0x1481, 0x2481, 0x4481, 0x8481, 0x1881, 0x2881, 0x4881,
  0x8881, 0x3081, 0x5081, 0x9081, 0x6081, 0xA081, 0xC081, 0x0701,
  0x0B01, 0x1301, 0x2301, 0x4301, 0x8301, 0x0D01, 0x1501, 0x2501,
  0x4501, 0x8501, 0x1901, 0x2901, 0x4901, 0x8901, 0x3101, 0x5101,
  0x9101, 0x6101, 0xA101, 0xC101, 0x0E01, 0x1601, 0x2601, 0x4601,
  0x8601, 0x1A01, 0x2A01, 0x4A01, 0x8A01, 0x3201, 0x5201, 0x9201,
  0x6201, 0xA201, 0xC201, 0x1C01, 0x2C01, 0x4C01, 0x8C01, 0x3401,
  0x5401, 0x9401, 0x6401, 0xA401, 0xC401, 0x3801, 0x5801, 0x9801,
  0x6801, 0xA801, 0xC801, 0x7001, 0xB001, 0xD001, 0xE001, 0x001E,
  0x002E, 0x004E, 0x008E, 0x010E, 0x020E, 0x040E, 0x080E, 0x100E,
  0x200E, 0x400E, 0x800E, 0x0036, 0x0056, 0x0096, 0x0116, 0x0216,
  0x0416, 0x0816, 0x1016, 0x2016, 0x4016, 0x8016, 0x0066, 0x00A6,
  0x0126, 0x0226, 0x0426, 0x0826, 0x1026, 0x2026, 0x4026, 0x8026,
  0x00C6, 0x0146, 0x0246, 0x0446, 0x0846, 0x1046, 0x2046, 0x4046,
  0x8046, 0x0186, 0x0286, 0x0486, 0x0886, 0x1086, 0x2086, 0x4086,
  0x8086, 0x0306, 0x0506, 0x0906, 0x1106, 0x2106, 0x4106, 0x8106,
  0x0606, 0x0A06, 0x1206, 0x2206, 0x4206, 0x8206, 0x0C06, 0x1406,
  0x2406, 0x4406, 0x8406, 0x1806, 0x2806, 0x4806, 0x8806, 0x3006,
  0x5006, 0x9006, 0x6006, 0xA006, 0xC006, 0x003A, 0x005A, 0x009A,
  0x011A, 0x021A, 0x041A, 0x081A, 0x101A, 0x201A, 0x401A, 0x801A,
  0x006A, 0x00AA, 0x012A, 0x022A, 0x042A, 0x082A, 0x102A, 0x202A,
  0x402A, 0x802A, 0x00CA, 0x014A, 0x024A, 0x044A, 0x084A, 0x104A,
  0x204A, 0x404A, 0x804A, 0x018A, 0x028A, 0x048A, 0x088A, 0x108A,
  0x208A, 0x408A, 0x808A, 0x030A, 0x050A, 0x090A, 0x110A, 0x210A,
  0x410A, 0x810A, 0x060A, 0x0A0A, 0x120A, 0x220A, 0x420A, 0x820A,
  0x0C0A, 0x140A, 0x240A, 0x440A, 0x840A, 0x180A, 0x280A, 0x480A,
  0x880A, 0x300A, 0x500A, 0x900A, 0x600A, 0xA00A, 0xC00A, 0x0072,
  0x00B2, 0x0132, 0x0232, 0x0432, 0x0832, 0x1032, 0x2032, 0x4032,
  0x8032, 0x00D2, 0x0152, 0x0252, 0x0452, 0x0852, 0x1052, 0x2052,
  0x4052, 0x8052, 0x0192, 0x0292, 0x0492, 0x0892, 0x1092, 0x2092,
  0x4092, 0x8092, 0x0312, 0x0512, 0x0912, 0x1112, 0x2112, 0x4112,
  0x8112, 0x0612, 0x0A12, 0x1212, 0x2212, 0x4212, 0x8212, 0x0C12,
  0x1412, 0x2412, 0x4412, 0x8412, 0x1812, 0x2812, 0x4812, 0x8812,
  0x3012, 0x5012, 0x9012, 0x6012, 0xA012, 0xC012, 0x00E2, 0x0162,
  0x0262, 0x0462, 0x0862, 0x1062, 0x2062, 0x4062, 0x8062, 0x01A2,
  0x02A2, 0x04A2, 0x08A2, 0x10A2, 0x20A2, 0x40A2, 0x80A2, 0x0322,
  0x0522, 0x0922, 0x1122, 0x2122, 0x4122, 0x8122, 0x0622, 0x0A22,
  0x1222, 0x2222, 0x4222, 0x8222, 0x0C22, 0x1422, 0x2422, 0x4422,
  0x8422, 0x1822, 0x2822, 0x4822, 0x8822, 0x3022, 0x5022, 0x9022,
  0x6022, 0xA022, 0xC022, 0x01C2, 0x02C2, 0x04C2, 0x08C2, 0x10C2,
  0x20C2, 0x40C2, 0x80C2, 0x0342, 0x0542, 0x0942, 0x1142, 0x2142,
  0x4142, 0x8142, 0x0642, 0x0A42, 0x1242, 0x2242, 0x4242, 0x8242,
  0x0C42, 0x1442, 0x2442, 0x4442, 0x8442, 0x1842, 0x2842, 0x4842,
  0x8842, 0x3042, 0x5042, 0x9042, 0x6042, 0xA042, 0xC042, 0x0382,
  0x0582, 0x0982, 0x1182, 0x2182, 0x4182, 0x8182, 0x0682, 0x0A82,
  0x1282, 0x2282, 0x4282, 0x8282, 0x0C82, 0x1482, 0x2482, 0x4482,
  0x8482, 0x1882, 0x2882, 0x4882, 0x8882, 0x3082, 0x5082, 0x9082,
  0x6082, 0xA082, 0xC082, 0x0702, 0x0B02, 0x1302, 0x2302, 0x4302,
  0x8302, 0x0D02, 0x1502, 0x2502, 0x4502, 0x8502, 0x1902, 0x2902,
  0x4902, 0x8902, 0x3102, 0x5102, 0x9102, 0x6102, 0xA102, 0xC102,
  0x0E02, 0x1602, 0x2602, 0x4602, 0x8602, 0x1A02, 0x2A02, 0x4A02,
  0x8A02, 0x3202, 0x5202, 0x9202, 0x6202, 0xA202, 0xC202, 0x1C02,
  0x2C02, 0x4C02, 0x8C02, 0x3402, 0x5402, 0x9402, 0x6402, 0xA402,
  0xC402, 0x3802, 0x5802, 0x9802, 0x6802, 0xA802, 0xC802, 0x7002,
  0xB002, 0xD002, 0xE002, 0x003C, 0x005C, 0x009C, 0x011C, 0x021C,
  0x041C, 0x081C, 0x101C, 0x201C, 0x401C, 0x801C, 0x006C, 0x00AC,
  0x012C, 0x022C, 0x042C, 0x082C, 0x102C, 0x202C, 0x402C, 0x802C,
  0x00CC, 0x014C, 0x024C, 0x044C, 0x084C, 0x104C, 0x204C, 0x404C,
  0x804C, 0x018C, 0x028C, 0x048C, 0x088C, 0x108C, 0x208C, 0x408C,
  0x808C, 0x030C, 0x050C, 0x090C, 0x110C, 0x210C, 0x410C, 0x810C,
  0x060C, 0x0A0C, 0x120C, 0x220C, 0x420C, 0x820C, 0x0C0C, 0x140C,
  0x240C, 0x440C, 0x840C, 0x180C, 0x280C, 0x480C, 0x880C, 0x300C,
  0x500C, 0x900C, 0x600C, 0xA00C, 0xC00C, 0x0074, 0x00B4, 0x0134,
  0x0234, 0x0434, 0x0834, 0x1034, 0x2034, 0x4034, 0x8034, 0x00D4,
  0x0154, 0x0254, 0x0454, 0x0854, 0x1054, 0x2054, 0x4054, 0x8054,
  0x0194, 0x0294, 0x0494, 0x0894, 0x1094, 0x2094, 0x4094, 0x8094,
  0x0314, 0x0514, 0x0914, 0x1114, 0x2114, 0x4114, 0x8114, 0x0614,
  0x0A14, 0x1214, 0x2214, 0x4214, 0x8214, 0x0C14, 0x1414, 0x2414,
  0x4414, 0x8414, 0x1814, 0x2814, 0x4814, 0x8814, 0x3014, 0x5014,
  0x9014, 0x6014, 0xA014, 0xC014, 0x00E4, 0x0164, 0x0264, 0x0464,
  0x0864, 0x1064, 0x2064, 0x4064, 0x8064, 0x01A4, 0x02A4, 0x04A4,
  0x08A4, 0x10A4, 0x20A4, 0x40A4, 0x80A4, 0x0324, 0x0524, 0x0924,
  0x1124, 0x2124, 0x4124, 0x8124, 0x0624, 0x0A24, 0x1224, 0x2224,
  0x4224, 0x8224, 0x0C24, 0x1424, 0x2424, 0x4424, 0x8424, 0x1824,
  0x2824, 0x4824, 0x8824, 0x3024, 0x5024, 0x9024, 0x6024, 0xA024,
  0xC024, 0x01C4, 0x02C4, 0x04C4, 0x08C4, 0x10C4, 0x20C4, 0x40C4,
  0x80C4, 0x0344, 0x0544, 0x0944, 0x1144, 0x2144, 0x4144, 0x8144,
  0x0644, 0x0A44, 0x1244, 0x2244, 0x4244, 0x8244, 0x0C44, 0x1444,
  0x2444, 0x4444, 0x8444, 0x1844, 0x2844, 0x4844, 0x8844, 0x3044,
  0x5044, 0x9044, 0x6044, 0xA044, 0xC044, 0x0384, 0x0584, 0x0984,
  0x1184, 0x2184, 0x4184, 0x8184, 0x0684, 0x0A84, 0x1284, 0x2284,
  0x4284, 0x8284, 0x0C84, 0x1484, 0x2484, 0x4484, 0x8484, 0x1884,
  0x2884, 0x4884, 0x8884, 0x3084, 0x5084, 0x9084, 0x6084, 0xA084,
  0xC084, 0x0704, 0x0B04, 0x1304, 0x2304, 0x4304, 0x8304, 0x0D04,
  0x1504, 0x2504, 0x4504, 0x8504, 0x1904, 0x2904, 0x4904, 0x8904,
  0x3104, 0x5104, 0x9104, 0x6104, 0xA104, 0xC104, 0x0E04, 0x1604,
  0x2604, 0x4604, 0x8604, 0x1A04, 0x2A04, 0x4A04, 0x8A04, 0x3204,
  0x5204, 0x9204, 0x6204, 0xA204, 0xC204, 0x1C04, 0x2C04, 0x4C04,
  0x8C04, 0x3404, 0x5404, 0x9404, 0x6404, 0xA404, 0xC404, 0x3804,
  0x5804, 0x9804, 0x6804, 0xA804, 0xC804, 0x7004, 0xB004, 0xD004,
  0xE004, 0x0078, 0x00B8, 0x0138, 0x0238, 0x0438, 0x0838, 0x1038,
  0x2038, 0x4038, 0x8038, 0x00D8, 0x0158, 0x0258, 0x0458, 0x0858,
  0x1058, 0x2058, 0x4058, 0x8058, 0x0198, 0x0298, 0x0498, 0x0898,
  0x1098, 0x2098, 0x4098, 0x8098, 0x0318, 0x0518, 0x0918, 0x1118,
  0x2118, 0x4118, 0x8118, 0x0618, 0x0A18, 0x1218, 0x2218, 0x4218,
  0x8218, 0x0C18, 0x1418, 0x2418, 0x4418, 0x8418, 0x1818, 0x2818,
  0x4818, 0x8818, 0x3018, 0x5018, 0x9018, 0x6018, 0xA018, 0xC018,
  0x00E8, 0x0168, 0x0268, 0x0468, 0x0868, 0x1068, 0x2068, 0x4068,
  0x8068, 0x01A8, 0x02A8, 0x04A8, 0x08A8, 0x10A8, 0x20A8, 0x40A8,
  0x80A8, 0x0328, 0x0528, 0x0928, 0x1128, 0x2128, 0x4128, 0x8128,
  0x0628, 0x0A28, 0x1228, 0x2228, 0x4228, 0x8228, 0x0C28, 0x1428,
  0x2428, 0x4428, 0x8428, 0x1828, 0x2828, 0x4828, 0x8828, 0x3028,
  0x5028, 0x9028, 0x6028, 0xA028, 0xC028, 0x01C8, 0x02C8, 0x04C8,
  0x08C8, 0x10C8, 0x20C8, 0x40C8, 0x80C8, 0x0348, 0x0548, 0x0948,
  0x1148, 0x2148, 0x4148, 0x8148, 0x0648, 0x0A48, 0x1248, 0x2248,
  0x4248, 0x8248, 0x0C48, 0x1448, 0x2448, 0x4448, 0x8448, 0x1848,
  0x2848, 0x4848, 0x8848, 0x3048, 0x5048, 0x9048, 0x6048, 0xA048,
  0xC048, 0x0388, 0x0588, 0x0988, 0x1188, 0x2188, 0x4188, 0x8188,
  0x0688, 0x0A88, 0x1288, 0x2288, 0x4288, 0x8288, 0x0C88, 0x1488,
  0x2488, 0x4488, 0x8488, 0x1888, 0x2888, 0x4888, 0x8888, 0x3088,
  0x5088, 0x9088, 0x6088, 0xA088, 0xC088, 0x0708, 0x0B08, 0x1308,
  0x2308, 0x4308, 0x8308, 0x0D08, 0x1508, 0x2508, 0x4508, 0x8508,
  0x1908, 0x2908, 0x4908, 0x8908, 0x3108, 0x5108, 0x9108, 0x6108,
  0xA108, 0xC108, 0x0E08, 0x1608, 0x2608, 0x4608, 0x8608, 0x1A08,
  0x2A08, 0x4A08, 0x8A08, 0x3208, 0x5208, 0x9208, 0x6208, 0xA208,
  0xC208, 0x1C08, 0x2C08, 0x4C08, 0x8C08, 0x3408, 0x5408, 0x9408,
  0x6408, 0xA408, 0xC408, 0x3808, 0x5808, 0x9808, 0x6808, 0xA808,
  0xC808, 0x7008, 0xB008, 0xD008, 0xE008, 0x00F0, 0x0170, 0x0270,
  0x0470, 0x0870, 0x1070, 0x2070, 0x4070, 0x8070, 0x01B0, 0x02B0,
  0x04B0, 0x08B0, 0x10B0, 0x20B0, 0x40B0, 0x80B0, 0x0330, 0x0530,
  0x0930, 0x1130, 0x2130, 0x4130, 0x8130, 0x0630, 0x0A30, 0x1230,
  0x2230, 0x4230, 0x8230, 0x0C30, 0x1430, 0x2430, 0x4430, 0x8430,
  0x1830, 0x2830, 0x4830, 0x8830, 0x3030, 0x5030, 0x9030, 0x6030,
  0xA030, 0xC030, 0x01D0, 0x02D0, 0x04D0, 0x08D0, 0x10D0, 0x20D0,
  0x40D0, 0x80D0, 0x0350, 0x0550, 0x0950, 0x1150, 0x2150, 0x4150,
  0x8150, 0x0650, 0x0A50, 0x1250, 0x2250, 0x4250, 0x8250, 0x0C50,
  0x1450, 0x2450, 0x4450, 0x8450, 0x1850, 0x2850, 0x4850, 0x8850,
  0x3050, 0x5050, 0x9050, 0x6050, 0xA050, 0xC050, 0x0390, 0x0590,
  0x0990, 0x1190, 0x2190, 0x4190, 0x8190, 0x0690, 0x0A90, 0x1290,
  0x2290, 0x4290, 0x8290, 0x0C90, 0x1490, 0x2490, 0x4490, 0x8490,
  0x1890, 0x2890, 0x4890, 0x8890, 0x3090, 0x5090, 0x9090, 0x6090,
  0xA090, 0xC090, 0x0710, 0x0B10, 0x1310, 0x2310, 0x4310, 0x8310,
  0x0D10, 0x1510, 0x2510, 0x4510, 0x8510, 0x1910, 0x2910, 0x4910,
  0x8910, 0x3110, 0x5110, 0x9110, 0x6110, 0xA110, 0xC110, 0x0E10,
  0x1610, 0x2610, 0x4610, 0x8610, 0x1A10, 0x2A10, 0x4A10, 0x8A10,
  0x3210, 0x5210, 0x9210, 0x6210, 0xA210, 0xC210, 0x1C10, 0x2C10,
  0x4C10, 0x8C10, 0x3410, 0x5410, 0x9410, 0x6410, 0xA410, 0xC410,
  0x3810, 0x5810, 0x9810, 0x6810, 0xA810, 0xC810, 0x7010, 0xB010,
  0xD010, 0xE010, 0x01E0, 0x02E0, 0x04E0, 0x08E0, 0x10E0, 0x20E0,
  0x40E0, 0x80E0, 0x0360, 0x0560, 0x0960, 0x1160, 0x2160, 0x4160,
  0x8160, 0x0660, 0x0A60, 0x1260, 0x2260, 0x4260, 0x8260, 0x0C60,
  0x1460, 0x2460, 0x4460, 0x8460, 0x1860, 0x2860, 0x4860, 0x8860,
  0x3060, 0x5060, 0x9060, 0x6060, 0xA060, 0xC060, 0x03A0, 0x05A0,
  0x09A0, 0x11A0, 0x21A0, 0x41A0, 0x81A0, 0x06A0, 0x0AA0, 0x12A0,
  0x22A0, 0x42A0, 0x82A0, 0x0CA0, 0x14A0, 0x24A0, 0x44A0, 0x84A0,
  0x18A0, 0x28A0, 0x48A0, 0x88A0, 0x30A0, 0x50A0, 0x90A0, 0x60A0,
  0xA0A0, 0xC0A0, 0x0720, 0x0B20, 0x1320, 0x2320, 0x4320, 0x8320,
  0x0D20, 0x1520, 0x2520, 0x4520, 0x8520, 0x1920, 0x2920, 0x4920,
  0x8920, 0x3120, 0x5120, 0x9120, 0x6120, 0xA120, 0xC120, 0x0E20,
  0x1620, 0x2620, 0x4620, 0x8620, 0x1A20, 0x2A20, 0x4A20, 0x8A20,
  0x3220, 0x5220, 0x9220, 0x6220, 0xA220, 0xC220, 0x1C20, 0x2C20,
  0x4C20, 0x8C20, 0x3420, 0x5420, 0x9420, 0x6420, 0xA420, 0xC420,
  0x3820, 0x5820, 0x9820, 0x6820, 0xA820, 0xC820, 0x7020, 0xB020,
  0xD020, 0xE020, 0x03C0, 0x05C0, 0x09C0, 0x11C0, 0x21C0, 0x41C0,
  0x81C0, 0x06C0, 0x0AC0, 0x12C0, 0x22C0, 0x42C0, 0x82C0, 0x0CC0,
  0x14C0, 0x24C0, 0x44C0, 0x84C0, 0x18C0, 0x28C0, 0x48C0, 0x88C0,
  0x30C0, 0x50C0, 0x90C0, 0x60C0, 0xA0C0, 0xC0C0, 0x0740, 0x0B40,
  0x1340, 0x2340, 0x4340, 0x8340, 0x0D40, 0x1540, 0x2540, 0x4540,
  0x8540, 0x1940, 0x2940, 0x4940, 0x8940, 0x3140, 0x5140, 0x9140,
  0x6140, 0xA140, 0xC140, 0x0E40, 0x1640, 0x2640, 0x4640, 0x8640,
  0x1A40, 0x2A40, 0x4A40, 0x8A40, 0x3240, 0x5240, 0x9240, 0x6240,
  0xA240, 0xC240, 0x1C40, 0x2C40, 0x4C40, 0x8C40, 0x3440, 0x5440,
  0x9440, 0x6440, 0xA440, 0xC440, 0x3840, 0x5840, 0x9840, 0x6840,
  0xA840, 0xC840, 0x7040, 0xB040, 0xD040, 0xE040, 0x0780, 0x0B80,
  0x1380, 0x2380, 0x4380, 0x8380, 0x0D80, 0x1580, 0x2580, 0x4580,
  0x8580, 0x1980, 0x2980, 0x4980, 0x8980, 0x3180, 0x5180, 0x9180,
  0x6180, 0xA180, 0xC180, 0x0E80, 0x1680, 0x2680, 0x4680, 0x8680,
  0x1A80, 0x2A80, 0x4A80, 0x8A80, 0x3280, 0x5280, 0x9280, 0x6280,
  0xA280, 0xC280, 0x1C80, 0x2C80, 0x4C80, 0x8C80, 0x3480, 0x5480,
  0x9480, 0x6480, 0xA480, 0xC480, 0x3880, 0x5880, 0x9880, 0x6880,
  0xA880, 0xC880, 0x7080, 0xB080, 0xD080, 0xE080, 0x0F00, 0x1700,
  0x2700, 0x4700, 0x8700, 0x1B00, 0x2B00, 0x4B00, 0x8B00, 0x3300,
  0x5300, 0x9300, 0x6300, 0xA300, 0xC300, 0x1D00, 0x2D00, 0x4D00,
  0x8D00, 0x3500, 0x5500, 0x9500, 0x6500, 0xA500, 0xC500, 0x3900,
  0x5900, 0x9900, 0x6900, 0xA900, 0xC900, 0x7100, 0xB100, 0xD100,
  0xE100, 0x1E00, 0x2E00, 0x4E00, 0x8E00, 0x3600, 0x5600, 0x9600,
  0x6600, 0xA600, 0xC600, 0x3A00, 0x5A00, 0x9A00, 0x6A00, 0xAA00,
  0xCA00, 0x7200, 0xB200, 0xD200, 0xE200, 0x3C00, 0x5C00, 0x9C00,
  0x6C00, 0xAC00, 0xCC00, 0x7400, 0xB400, 0xD400, 0xE400, 0x7800,
  0xB800, 0xD800, 0xE800, 0xF000, 0x1610, 0x84A0, 0x2091, 0x2902,
  0x4882, 0x6808, 0x1304, 0x220A, 0x6005, 0x8608, 0x0289, 0x200E,
  0x200E, 0x1841, 0x1818, 0x2502, 0xC408, 0xC041, 0x08A4, 0x4520,
  0xC500, 0x01C4, 0x0D01, 0x0419, 0x5401, 0x0D01, 0x5005, 0x3808,
  0xA402, 0x9240, 0x8026, 0xA880, 0x001B, 0x006A, 0x9021, 0x2811,
  0x6022, 0x09A0, 0xA120, 0x0A90, 0x09C0, 0x4013, 0x0B10, 0x014A,
  0xE002, 0x1282, 0x4086, 0x4412, 0x2111, 0x200D, 0x1C01, 0xC220,
  0x6088, 0xC0A0, 0x3030, 0xC804, 0x0628, 0x00A6, 0x8B00, 0x2448,
  0x1A01, 0x0207, 0x4888, 0x0434, 0x6044, 0x0072, 0x2206, 0xB400,
  0x4288, 0x005A, 0x0415, 0xCA00, 0x8241, 0x0894, 0x4121, 0x6900,
  0x2448, 0x0344, 0x6101, 0x3120, 0xA440, 0x0285, 0x6021, 0xA801,
  0x2860, 0x3110, 0x1882, 0x84C0, 0xA108, 0x1007, 0x8144, 0x8481,
  0x2901, 0x3003, 0xA104, 0x2211, 0x10C8, 0xD100, 0x0132, 0x4E00,
  0x9014, 0x2504, 0x2109, 0x4085, 0x4038, 0x3050, 0xC090, 0x2124,
  0x8029, 0x88A0, 0x0F00, 0xC201, 0x7040, 0x0306, 0x2111, 0x0154,
  0x20C1, 0x0505, 0xC404, 0x3140, 0x2814, 0xC081, 0x40A8, 0x1124,
  0x3048, 0x02E0, 0x2980, 0x0911, 0x2013, 0x0107, 0x0B40, 0x0170,
  0x0415, 0x0087, 0x2602, 0xC0A0, 0x1244, 0x0059, 0xC408, 0xA110,
  0xC0C0, 0x0E40, 0x20C4, 0x2A01, 0x2214, 0x1212, 0x900C, 0xA003,
  0x2098, 0xD002, 0xC201, 0x1118, 0x2130, 0x6480, 0x2211, 0x9804,
  0x2842, 0x0C28, 0x5011, 0x2224, 0xB800, 0x0431, 0x0D01, 0x4610,
  0x21A0, 0x2A80, 0x1016, 0x300C, 0x1203, 0x04C1, 0x4700, 0x4848,
  0x4007, 0x0521, 0x0470, 0x6C00, 0x0524, 0xA500, 0x180A, 0x014A,
  0x800B, 0x021A, 0x401C, 0xD200, 0x3021, 0x1812, 0x2490, 0x3600,
  0x4051, 0xC110, 0x80C8, 0x0154, 0x8640, 0x00AA, 0x040D, 0x0522,
  0x40B0, 0x0151, 0x8A40, 0x0582, 0x2380, 0x0D01, 0x0905, 0x8841,
  0x1520, 0x3220, 0xA820, 0x048C, 0x4244, 0x6018, 0x5082, 0x8222,
  0x3101, 0x400E, 0x8444, 0x900C, 0x404C, 0x1602, 0x3120, 0x1290,
  0x0854, 0x0324, 0x8302, 0x020D, 0x8460, 0x3104, 0x8150, 0x2502]

/-- `tags[((uint32_t)hash) >> (32 - 11)]`. -/
def tagOf (hash : UInt64) : UInt16 := tags.getD (hash.toUInt32 >>> 21).toNat 0

end HashJoin
