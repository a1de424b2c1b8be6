/-!
# The tables of ZUC-256

The constants and the two boxes, the same in `zuc256.c` and in every script of the simulation.
-/

namespace AuthVideo

/-- The constants of the 16-byte IV. -/
def d2 : Array UInt8 := #[
  0x64, 0x43, 0x7B, 0x2A, 0x11, 0x05, 0x51, 0x42, 0x1A, 0x31, 0x18, 0x66, 0x14, 0x2E, 0x01, 0x5C]

/-- The constants of the 25-byte IV. -/
def d3 : Array UInt8 := #[
  0x22, 0x2F, 0x24, 0x2A, 0x6D, 0x40, 0x40, 0x40, 0x40, 0x40, 0x40, 0x40, 0x40, 0x52, 0x10, 0x30]

/-- The box of the odd bytes. -/
def s0 : Array UInt8 := #[
  0x3E, 0x72, 0x5B, 0x47, 0xCA, 0xE0, 0x00, 0x33, 0x04, 0xD1, 0x54, 0x98, 0x09, 0xB9, 0x6D, 0xCB,
  0x8F, 0xEA, 0x20, 0xAB, 0x6A, 0x41, 0x7C, 0x11, 0xCF, 0x7E, 0xC7, 0x7B, 0x73, 0xBC, 0x5C, 0x6F,
  0x45, 0x2E, 0x33, 0x67, 0x24, 0x4F, 0x6B, 0x48, 0x8A, 0x0F, 0x5F, 0xF7, 0x1A, 0xA2, 0xF3, 0x91,
  0xEB, 0x2D, 0x0E, 0x8B, 0xA9, 0x0C, 0x86, 0x1B, 0xAE, 0xC4, 0x10, 0x6C, 0xF0, 0x0A, 0x5A, 0xE9,
  0x3D, 0x46, 0x8E, 0xB4, 0xE5, 0x37, 0xE7, 0x0B, 0xE8, 0x2F, 0x2B, 0xA7, 0x3B, 0xD4, 0x9D, 0xFC,
  0x7D, 0x3F, 0x29, 0xB7, 0x99, 0x2C, 0x9A, 0xE3, 0x9E, 0xC6, 0x5D, 0x34, 0x1C, 0x9B, 0xAF, 0x1E,
  0x3A, 0x77, 0x70, 0xF1, 0x39, 0xAC, 0xD0, 0x1D, 0x5E, 0x62, 0xCE, 0x1F, 0x8C, 0xB3, 0xE1, 0xA5,
  0x27, 0x4B, 0x2A, 0xFD, 0xDB, 0x15, 0xA4, 0x4E, 0x95, 0xA0, 0x14, 0xF5, 0x4A, 0x61, 0x83, 0x38,
  0x6E, 0xD7, 0x84, 0x4D, 0x1B, 0x7F, 0xC2, 0xDC, 0xEF, 0x8D, 0xAD, 0xD8, 0x26, 0xB0, 0xD6, 0x93,
  0x60, 0x88, 0xA8, 0xBA, 0xC5, 0x21, 0x9C, 0xBD, 0x92, 0x16, 0xF9, 0xA6, 0xFB, 0xC1, 0x0D, 0x56,
  0x44, 0x85, 0x57, 0x12, 0xC3, 0xC9, 0x90, 0xEF, 0x58, 0x6F, 0x4C, 0x43, 0xB6, 0xD9, 0x68, 0x82,
  0x30, 0x52, 0x71, 0x5C, 0x9F, 0x36, 0x64, 0xA1, 0x94, 0xEA, 0x13, 0x2D, 0x22, 0xAD, 0x97, 0xB1,
  0x79, 0xF2, 0x17, 0x63, 0xB8, 0xD5, 0x89, 0x4C, 0x59, 0x23, 0x25, 0x66, 0x08, 0xD2, 0x35, 0xF8,
  0x19, 0x01, 0x46, 0x87, 0xA3, 0x55, 0x96, 0x69, 0x42, 0x0F, 0xE2, 0xCB, 0x32, 0x78, 0xA9, 0x7A,
  0x6A, 0xA4, 0xFB, 0xFB, 0xE4, 0x2C, 0xC8, 0xD3, 0x80, 0x05, 0xC0, 0x31, 0xB5, 0xF4, 0x40, 0x0D,
  0x75, 0x14, 0xC7, 0xD1, 0xB2, 0xF6, 0x65, 0x03, 0xB9, 0x09, 0x7E, 0x02, 0x11, 0x6D, 0xA0, 0x2E]

/-- The box of the even bytes. -/
def s1 : Array UInt8 := #[
  0x55, 0xC2, 0x63, 0x71, 0x3B, 0xC8, 0x47, 0x86, 0x9F, 0x3C, 0xDA, 0x5B, 0x29, 0xAA, 0xFD, 0x77,
  0x8C, 0xC5, 0x94, 0x0C, 0xA6, 0x1A, 0x13, 0x00, 0xE3, 0xA8, 0x16, 0x72, 0x40, 0xF9, 0xF8, 0x42,
  0x44, 0x26, 0x68, 0x96, 0x81, 0xD9, 0x45, 0x3E, 0x10, 0x76, 0xC6, 0xA7, 0x8B, 0x39, 0x43, 0xE1,
  0x3A, 0xB5, 0x56, 0x2A, 0xC0, 0x6D, 0xB3, 0x05, 0x22, 0x66, 0xBF, 0xDC, 0x0B, 0xFA, 0x62, 0x48,
  0x24, 0x91, 0x8A, 0x4B, 0x9A, 0x86, 0xE7, 0x1F, 0x6B, 0xD6, 0xE6, 0x18, 0x30, 0x0D, 0xAB, 0xF1,
  0xA2, 0x8D, 0x6F, 0x98, 0x0A, 0x7B, 0x0E, 0xC1, 0xEF, 0xDE, 0xDB, 0x1D, 0xA4, 0x9D, 0x2F, 0x5F,
  0xB4, 0xAF, 0xEC, 0x07, 0xE2, 0x67, 0xF0, 0xF6, 0x4F, 0x2B, 0xBD, 0xB8, 0x4E, 0x93, 0x92, 0x1B,
  0x37, 0xB0, 0x28, 0x60, 0x64, 0x15, 0xCD, 0xC3, 0xF4, 0x9C, 0x36, 0x1C, 0xA5, 0xD0, 0x5A, 0x7F,
  0xDB, 0x21, 0x50, 0xCF, 0x04, 0x88, 0x6A, 0x8E, 0x9B, 0xB6, 0x20, 0x14, 0xE0, 0x4A, 0x6C, 0x5D,
  0x46, 0x34, 0x2D, 0x49, 0x7C, 0x3D, 0x85, 0xA7, 0x99, 0x0F, 0xF2, 0x33, 0x59, 0x82, 0x3F, 0xE4,
  0xC9, 0xC7, 0x97, 0xA9, 0xEC, 0x3E, 0x01, 0xDD, 0xC4, 0x41, 0x31, 0x5C, 0x7A, 0x78, 0x95, 0x6E,
  0x27, 0xAB, 0x35, 0x52, 0x17, 0xBE, 0x02, 0x4C, 0x6F, 0xE8, 0xA1, 0xBD, 0x12, 0x0B, 0xC5, 0xCE,
  0xE9, 0x7D, 0x1E, 0xA3, 0x08, 0xB1, 0x65, 0x32, 0xB7, 0xF3, 0xF5, 0xC0, 0x87, 0xFE, 0x89, 0x25,
  0x5E, 0xC8, 0x2C, 0x51, 0x4D, 0xF7, 0x61, 0x54, 0xAE, 0x9E, 0x11, 0xD8, 0x3B, 0x73, 0xD5, 0xA0,
  0x5B, 0xD1, 0xE5, 0xF8, 0x6D, 0x43, 0x03, 0x96, 0x38, 0x4B, 0x44, 0x29, 0x19, 0xCA, 0xB2, 0xB9,
  0x84, 0x71, 0x8F, 0x53, 0x2A, 0x9F, 0x57, 0x0C, 0xA6, 0x16, 0x75, 0x40, 0x2E, 0xAD, 0x09, 0xD4]

end AuthVideo
