import EdgeQuery.Text.Unicode.Runs
/-! # Case of code points

The simple case mappings of the Unicode standard (version 15.0): each code point maps to at
most one lower-case and one upper-case code point. Code points that are equal under simple
case folding form an orbit; `foldNext` steps through an orbit in increasing order and
wraps around, so repeating it from any member visits the whole orbit. -/

namespace EdgeQuery.Unicode

/-- Code points whose lower case differs from them, with that lower case, in steps in
key order. -/
def lowerSteps : List Step :=
  [⟨0x41, 0x61, 26, 1⟩, ⟨0xc0, 0xe0, 23, 1⟩, ⟨0xd8, 0xf8, 7, 1⟩, ⟨0x100, 0x101, 24, 2⟩, ⟨0x130, 0x69, 1, 1⟩,
   ⟨0x132, 0x133, 3, 2⟩, ⟨0x139, 0x13a, 8, 2⟩, ⟨0x14a, 0x14b, 23, 2⟩, ⟨0x178, 0xff, 1, 1⟩, ⟨0x179, 0x17a, 3, 2⟩,
   ⟨0x181, 0x253, 1, 1⟩, ⟨0x182, 0x183, 2, 2⟩, ⟨0x186, 0x254, 1, 1⟩, ⟨0x187, 0x188, 1, 1⟩, ⟨0x189, 0x256, 2, 1⟩,
   ⟨0x18b, 0x18c, 1, 1⟩, ⟨0x18e, 0x1dd, 1, 1⟩, ⟨0x18f, 0x259, 1, 1⟩, ⟨0x190, 0x25b, 1, 1⟩, ⟨0x191, 0x192, 1, 1⟩,
   ⟨0x193, 0x260, 1, 1⟩, ⟨0x194, 0x263, 1, 1⟩, ⟨0x196, 0x269, 1, 1⟩, ⟨0x197, 0x268, 1, 1⟩, ⟨0x198, 0x199, 1, 1⟩,
   ⟨0x19c, 0x26f, 1, 1⟩, ⟨0x19d, 0x272, 1, 1⟩, ⟨0x19f, 0x275, 1, 1⟩, ⟨0x1a0, 0x1a1, 3, 2⟩, ⟨0x1a6, 0x280, 1, 1⟩,
   ⟨0x1a7, 0x1a8, 1, 1⟩, ⟨0x1a9, 0x283, 1, 1⟩, ⟨0x1ac, 0x1ad, 1, 1⟩, ⟨0x1ae, 0x288, 1, 1⟩, ⟨0x1af, 0x1b0, 1, 1⟩,
   ⟨0x1b1, 0x28a, 2, 1⟩, ⟨0x1b3, 0x1b4, 2, 2⟩, ⟨0x1b7, 0x292, 1, 1⟩, ⟨0x1b8, 0x1b9, 1, 1⟩, ⟨0x1bc, 0x1bd, 1, 1⟩,
   ⟨0x1c4, 0x1c6, 1, 1⟩, ⟨0x1c5, 0x1c6, 1, 1⟩, ⟨0x1c7, 0x1c9, 1, 1⟩, ⟨0x1c8, 0x1c9, 1, 1⟩, ⟨0x1ca, 0x1cc, 1, 1⟩,
   ⟨0x1cb, 0x1cc, 9, 2⟩, ⟨0x1de, 0x1df, 9, 2⟩, ⟨0x1f1, 0x1f3, 1, 1⟩, ⟨0x1f2, 0x1f3, 2, 2⟩, ⟨0x1f6, 0x195, 1, 1⟩,
   ⟨0x1f7, 0x1bf, 1, 1⟩, ⟨0x1f8, 0x1f9, 20, 2⟩, ⟨0x220, 0x19e, 1, 1⟩, ⟨0x222, 0x223, 9, 2⟩, ⟨0x23a, 0x2c65, 1, 1⟩,
   ⟨0x23b, 0x23c, 1, 1⟩, ⟨0x23d, 0x19a, 1, 1⟩, ⟨0x23e, 0x2c66, 1, 1⟩, ⟨0x241, 0x242, 1, 1⟩, ⟨0x243, 0x180, 1, 1⟩,
   ⟨0x244, 0x289, 1, 1⟩, ⟨0x245, 0x28c, 1, 1⟩, ⟨0x246, 0x247, 5, 2⟩, ⟨0x370, 0x371, 2, 2⟩, ⟨0x376, 0x377, 1, 1⟩,
   ⟨0x37f, 0x3f3, 1, 1⟩, ⟨0x386, 0x3ac, 1, 1⟩, ⟨0x388, 0x3ad, 3, 1⟩, ⟨0x38c, 0x3cc, 1, 1⟩, ⟨0x38e, 0x3cd, 2, 1⟩,
   ⟨0x391, 0x3b1, 17, 1⟩, ⟨0x3a3, 0x3c3, 9, 1⟩, ⟨0x3cf, 0x3d7, 1, 1⟩, ⟨0x3d8, 0x3d9, 12, 2⟩, ⟨0x3f4, 0x3b8, 1, 1⟩,
   ⟨0x3f7, 0x3f8, 1, 1⟩, ⟨0x3f9, 0x3f2, 1, 1⟩, ⟨0x3fa, 0x3fb, 1, 1⟩, ⟨0x3fd, 0x37b, 3, 1⟩, ⟨0x400, 0x450, 16, 1⟩,
   ⟨0x410, 0x430, 32, 1⟩, ⟨0x460, 0x461, 17, 2⟩, ⟨0x48a, 0x48b, 27, 2⟩, ⟨0x4c0, 0x4cf, 1, 1⟩, ⟨0x4c1, 0x4c2, 7, 2⟩,
   ⟨0x4d0, 0x4d1, 48, 2⟩, ⟨0x531, 0x561, 38, 1⟩, ⟨0x10a0, 0x2d00, 38, 1⟩, ⟨0x10c7, 0x2d27, 1, 1⟩, ⟨0x10cd, 0x2d2d, 1, 1⟩,
   ⟨0x13a0, 0xab70, 80, 1⟩, ⟨0x13f0, 0x13f8, 6, 1⟩, ⟨0x1c90, 0x10d0, 43, 1⟩, ⟨0x1cbd, 0x10fd, 3, 1⟩, ⟨0x1e00, 0x1e01, 75, 2⟩,
   ⟨0x1e9e, 0xdf, 1, 1⟩, ⟨0x1ea0, 0x1ea1, 48, 2⟩, ⟨0x1f08, 0x1f00, 8, 1⟩, ⟨0x1f18, 0x1f10, 6, 1⟩, ⟨0x1f28, 0x1f20, 8, 1⟩,
   ⟨0x1f38, 0x1f30, 8, 1⟩, ⟨0x1f48, 0x1f40, 6, 1⟩, ⟨0x1f59, 0x1f51, 4, 2⟩, ⟨0x1f68, 0x1f60, 8, 1⟩, ⟨0x1f88, 0x1f80, 8, 1⟩,
   ⟨0x1f98, 0x1f90, 8, 1⟩, ⟨0x1fa8, 0x1fa0, 8, 1⟩, ⟨0x1fb8, 0x1fb0, 2, 1⟩, ⟨0x1fba, 0x1f70, 2, 1⟩, ⟨0x1fbc, 0x1fb3, 1, 1⟩,
   ⟨0x1fc8, 0x1f72, 4, 1⟩, ⟨0x1fcc, 0x1fc3, 1, 1⟩, ⟨0x1fd8, 0x1fd0, 2, 1⟩, ⟨0x1fda, 0x1f76, 2, 1⟩, ⟨0x1fe8, 0x1fe0, 2, 1⟩,
   ⟨0x1fea, 0x1f7a, 2, 1⟩, ⟨0x1fec, 0x1fe5, 1, 1⟩, ⟨0x1ff8, 0x1f78, 2, 1⟩, ⟨0x1ffa, 0x1f7c, 2, 1⟩, ⟨0x1ffc, 0x1ff3, 1, 1⟩,
   ⟨0x2126, 0x3c9, 1, 1⟩, ⟨0x212a, 0x6b, 1, 1⟩, ⟨0x212b, 0xe5, 1, 1⟩, ⟨0x2132, 0x214e, 1, 1⟩, ⟨0x2160, 0x2170, 16, 1⟩,
   ⟨0x2183, 0x2184, 1, 1⟩, ⟨0x24b6, 0x24d0, 26, 1⟩, ⟨0x2c00, 0x2c30, 48, 1⟩, ⟨0x2c60, 0x2c61, 1, 1⟩, ⟨0x2c62, 0x26b, 1, 1⟩,
   ⟨0x2c63, 0x1d7d, 1, 1⟩, ⟨0x2c64, 0x27d, 1, 1⟩, ⟨0x2c67, 0x2c68, 3, 2⟩, ⟨0x2c6d, 0x251, 1, 1⟩, ⟨0x2c6e, 0x271, 1, 1⟩,
   ⟨0x2c6f, 0x250, 1, 1⟩, ⟨0x2c70, 0x252, 1, 1⟩, ⟨0x2c72, 0x2c73, 1, 1⟩, ⟨0x2c75, 0x2c76, 1, 1⟩, ⟨0x2c7e, 0x23f, 2, 1⟩,
   ⟨0x2c80, 0x2c81, 50, 2⟩, ⟨0x2ceb, 0x2cec, 2, 2⟩, ⟨0x2cf2, 0x2cf3, 1, 1⟩, ⟨0xa640, 0xa641, 23, 2⟩, ⟨0xa680, 0xa681, 14, 2⟩,
   ⟨0xa722, 0xa723, 7, 2⟩, ⟨0xa732, 0xa733, 31, 2⟩, ⟨0xa779, 0xa77a, 2, 2⟩, ⟨0xa77d, 0x1d79, 1, 1⟩, ⟨0xa77e, 0xa77f, 5, 2⟩,
   ⟨0xa78b, 0xa78c, 1, 1⟩, ⟨0xa78d, 0x265, 1, 1⟩, ⟨0xa790, 0xa791, 2, 2⟩, ⟨0xa796, 0xa797, 10, 2⟩, ⟨0xa7aa, 0x266, 1, 1⟩,
   ⟨0xa7ab, 0x25c, 1, 1⟩, ⟨0xa7ac, 0x261, 1, 1⟩, ⟨0xa7ad, 0x26c, 1, 1⟩, ⟨0xa7ae, 0x26a, 1, 1⟩, ⟨0xa7b0, 0x29e, 1, 1⟩,
   ⟨0xa7b1, 0x287, 1, 1⟩, ⟨0xa7b2, 0x29d, 1, 1⟩, ⟨0xa7b3, 0xab53, 1, 1⟩, ⟨0xa7b4, 0xa7b5, 8, 2⟩, ⟨0xa7c4, 0xa794, 1, 1⟩,
   ⟨0xa7c5, 0x282, 1, 1⟩, ⟨0xa7c6, 0x1d8e, 1, 1⟩, ⟨0xa7c7, 0xa7c8, 2, 2⟩, ⟨0xa7d0, 0xa7d1, 1, 1⟩, ⟨0xa7d6, 0xa7d7, 2, 2⟩,
   ⟨0xa7f5, 0xa7f6, 1, 1⟩, ⟨0xff21, 0xff41, 26, 1⟩, ⟨0x10400, 0x10428, 40, 1⟩, ⟨0x104b0, 0x104d8, 36, 1⟩, ⟨0x10570, 0x10597, 11, 1⟩,
   ⟨0x1057c, 0x105a3, 15, 1⟩, ⟨0x1058c, 0x105b3, 7, 1⟩, ⟨0x10594, 0x105bb, 2, 1⟩, ⟨0x10c80, 0x10cc0, 51, 1⟩, ⟨0x118a0, 0x118c0, 32, 1⟩,
   ⟨0x16e40, 0x16e60, 32, 1⟩, ⟨0x1e900, 0x1e922, 34, 1⟩]

/-- Code points whose upper case differs from them, with that upper case, in steps in
key order. -/
def upperSteps : List Step :=
  [⟨0x61, 0x41, 26, 1⟩, ⟨0xb5, 0x39c, 1, 1⟩, ⟨0xe0, 0xc0, 23, 1⟩, ⟨0xf8, 0xd8, 7, 1⟩, ⟨0xff, 0x178, 1, 1⟩,
   ⟨0x101, 0x100, 24, 2⟩, ⟨0x131, 0x49, 1, 1⟩, ⟨0x133, 0x132, 3, 2⟩, ⟨0x13a, 0x139, 8, 2⟩, ⟨0x14b, 0x14a, 23, 2⟩,
   ⟨0x17a, 0x179, 3, 2⟩, ⟨0x17f, 0x53, 1, 1⟩, ⟨0x180, 0x243, 1, 1⟩, ⟨0x183, 0x182, 2, 2⟩, ⟨0x188, 0x187, 1, 1⟩,
   ⟨0x18c, 0x18b, 1, 1⟩, ⟨0x192, 0x191, 1, 1⟩, ⟨0x195, 0x1f6, 1, 1⟩, ⟨0x199, 0x198, 1, 1⟩, ⟨0x19a, 0x23d, 1, 1⟩,
   ⟨0x19e, 0x220, 1, 1⟩, ⟨0x1a1, 0x1a0, 3, 2⟩, ⟨0x1a8, 0x1a7, 1, 1⟩, ⟨0x1ad, 0x1ac, 1, 1⟩, ⟨0x1b0, 0x1af, 1, 1⟩,
   ⟨0x1b4, 0x1b3, 2, 2⟩, ⟨0x1b9, 0x1b8, 1, 1⟩, ⟨0x1bd, 0x1bc, 1, 1⟩, ⟨0x1bf, 0x1f7, 1, 1⟩, ⟨0x1c5, 0x1c4, 1, 1⟩,
   ⟨0x1c6, 0x1c4, 1, 1⟩, ⟨0x1c8, 0x1c7, 1, 1⟩, ⟨0x1c9, 0x1c7, 1, 1⟩, ⟨0x1cb, 0x1ca, 1, 1⟩, ⟨0x1cc, 0x1ca, 1, 1⟩,
   ⟨0x1ce, 0x1cd, 8, 2⟩, ⟨0x1dd, 0x18e, 1, 1⟩, ⟨0x1df, 0x1de, 9, 2⟩, ⟨0x1f2, 0x1f1, 1, 1⟩, ⟨0x1f3, 0x1f1, 1, 1⟩,
   ⟨0x1f5, 0x1f4, 1, 1⟩, ⟨0x1f9, 0x1f8, 20, 2⟩, ⟨0x223, 0x222, 9, 2⟩, ⟨0x23c, 0x23b, 1, 1⟩, ⟨0x23f, 0x2c7e, 2, 1⟩,
   ⟨0x242, 0x241, 1, 1⟩, ⟨0x247, 0x246, 5, 2⟩, ⟨0x250, 0x2c6f, 1, 1⟩, ⟨0x251, 0x2c6d, 1, 1⟩, ⟨0x252, 0x2c70, 1, 1⟩,
   ⟨0x253, 0x181, 1, 1⟩, ⟨0x254, 0x186, 1, 1⟩, ⟨0x256, 0x189, 2, 1⟩, ⟨0x259, 0x18f, 1, 1⟩, ⟨0x25b, 0x190, 1, 1⟩,
   ⟨0x25c, 0xa7ab, 1, 1⟩, ⟨0x260, 0x193, 1, 1⟩, ⟨0x261, 0xa7ac, 1, 1⟩, ⟨0x263, 0x194, 1, 1⟩, ⟨0x265, 0xa78d, 1, 1⟩,
   ⟨0x266, 0xa7aa, 1, 1⟩, ⟨0x268, 0x197, 1, 1⟩, ⟨0x269, 0x196, 1, 1⟩, ⟨0x26a, 0xa7ae, 1, 1⟩, ⟨0x26b, 0x2c62, 1, 1⟩,
   ⟨0x26c, 0xa7ad, 1, 1⟩, ⟨0x26f, 0x19c, 1, 1⟩, ⟨0x271, 0x2c6e, 1, 1⟩, ⟨0x272, 0x19d, 1, 1⟩, ⟨0x275, 0x19f, 1, 1⟩,
   ⟨0x27d, 0x2c64, 1, 1⟩, ⟨0x280, 0x1a6, 1, 1⟩, ⟨0x282, 0xa7c5, 1, 1⟩, ⟨0x283, 0x1a9, 1, 1⟩, ⟨0x287, 0xa7b1, 1, 1⟩,
   ⟨0x288, 0x1ae, 1, 1⟩, ⟨0x289, 0x244, 1, 1⟩, ⟨0x28a, 0x1b1, 2, 1⟩, ⟨0x28c, 0x245, 1, 1⟩, ⟨0x292, 0x1b7, 1, 1⟩,
   ⟨0x29d, 0xa7b2, 1, 1⟩, ⟨0x29e, 0xa7b0, 1, 1⟩, ⟨0x345, 0x399, 1, 1⟩, ⟨0x371, 0x370, 2, 2⟩, ⟨0x377, 0x376, 1, 1⟩,
   ⟨0x37b, 0x3fd, 3, 1⟩, ⟨0x3ac, 0x386, 1, 1⟩, ⟨0x3ad, 0x388, 3, 1⟩, ⟨0x3b1, 0x391, 17, 1⟩, ⟨0x3c2, 0x3a3, 1, 1⟩,
   ⟨0x3c3, 0x3a3, 9, 1⟩, ⟨0x3cc, 0x38c, 1, 1⟩, ⟨0x3cd, 0x38e, 2, 1⟩, ⟨0x3d0, 0x392, 1, 1⟩, ⟨0x3d1, 0x398, 1, 1⟩,
   ⟨0x3d5, 0x3a6, 1, 1⟩, ⟨0x3d6, 0x3a0, 1, 1⟩, ⟨0x3d7, 0x3cf, 1, 1⟩, ⟨0x3d9, 0x3d8, 12, 2⟩, ⟨0x3f0, 0x39a, 1, 1⟩,
   ⟨0x3f1, 0x3a1, 1, 1⟩, ⟨0x3f2, 0x3f9, 1, 1⟩, ⟨0x3f3, 0x37f, 1, 1⟩, ⟨0x3f5, 0x395, 1, 1⟩, ⟨0x3f8, 0x3f7, 1, 1⟩,
   ⟨0x3fb, 0x3fa, 1, 1⟩, ⟨0x430, 0x410, 32, 1⟩, ⟨0x450, 0x400, 16, 1⟩, ⟨0x461, 0x460, 17, 2⟩, ⟨0x48b, 0x48a, 27, 2⟩,
   ⟨0x4c2, 0x4c1, 7, 2⟩, ⟨0x4cf, 0x4c0, 1, 1⟩, ⟨0x4d1, 0x4d0, 48, 2⟩, ⟨0x561, 0x531, 38, 1⟩, ⟨0x10d0, 0x1c90, 43, 1⟩,
   ⟨0x10fd, 0x1cbd, 3, 1⟩, ⟨0x13f8, 0x13f0, 6, 1⟩, ⟨0x1c80, 0x412, 1, 1⟩, ⟨0x1c81, 0x414, 1, 1⟩, ⟨0x1c82, 0x41e, 1, 1⟩,
   ⟨0x1c83, 0x421, 2, 1⟩, ⟨0x1c85, 0x422, 1, 1⟩, ⟨0x1c86, 0x42a, 1, 1⟩, ⟨0x1c87, 0x462, 1, 1⟩, ⟨0x1c88, 0xa64a, 1, 1⟩,
   ⟨0x1d79, 0xa77d, 1, 1⟩, ⟨0x1d7d, 0x2c63, 1, 1⟩, ⟨0x1d8e, 0xa7c6, 1, 1⟩, ⟨0x1e01, 0x1e00, 75, 2⟩, ⟨0x1e9b, 0x1e60, 1, 1⟩,
   ⟨0x1ea1, 0x1ea0, 48, 2⟩, ⟨0x1f00, 0x1f08, 8, 1⟩, ⟨0x1f10, 0x1f18, 6, 1⟩, ⟨0x1f20, 0x1f28, 8, 1⟩, ⟨0x1f30, 0x1f38, 8, 1⟩,
   ⟨0x1f40, 0x1f48, 6, 1⟩, ⟨0x1f51, 0x1f59, 4, 2⟩, ⟨0x1f60, 0x1f68, 8, 1⟩, ⟨0x1f70, 0x1fba, 2, 1⟩, ⟨0x1f72, 0x1fc8, 4, 1⟩,
   ⟨0x1f76, 0x1fda, 2, 1⟩, ⟨0x1f78, 0x1ff8, 2, 1⟩, ⟨0x1f7a, 0x1fea, 2, 1⟩, ⟨0x1f7c, 0x1ffa, 2, 1⟩, ⟨0x1f80, 0x1f88, 8, 1⟩,
   ⟨0x1f90, 0x1f98, 8, 1⟩, ⟨0x1fa0, 0x1fa8, 8, 1⟩, ⟨0x1fb0, 0x1fb8, 2, 1⟩, ⟨0x1fb3, 0x1fbc, 1, 1⟩, ⟨0x1fbe, 0x399, 1, 1⟩,
   ⟨0x1fc3, 0x1fcc, 1, 1⟩, ⟨0x1fd0, 0x1fd8, 2, 1⟩, ⟨0x1fe0, 0x1fe8, 2, 1⟩, ⟨0x1fe5, 0x1fec, 1, 1⟩, ⟨0x1ff3, 0x1ffc, 1, 1⟩,
   ⟨0x214e, 0x2132, 1, 1⟩, ⟨0x2170, 0x2160, 16, 1⟩, ⟨0x2184, 0x2183, 1, 1⟩, ⟨0x24d0, 0x24b6, 26, 1⟩, ⟨0x2c30, 0x2c00, 48, 1⟩,
   ⟨0x2c61, 0x2c60, 1, 1⟩, ⟨0x2c65, 0x23a, 1, 1⟩, ⟨0x2c66, 0x23e, 1, 1⟩, ⟨0x2c68, 0x2c67, 3, 2⟩, ⟨0x2c73, 0x2c72, 1, 1⟩,
   ⟨0x2c76, 0x2c75, 1, 1⟩, ⟨0x2c81, 0x2c80, 50, 2⟩, ⟨0x2cec, 0x2ceb, 2, 2⟩, ⟨0x2cf3, 0x2cf2, 1, 1⟩, ⟨0x2d00, 0x10a0, 38, 1⟩,
   ⟨0x2d27, 0x10c7, 1, 1⟩, ⟨0x2d2d, 0x10cd, 1, 1⟩, ⟨0xa641, 0xa640, 23, 2⟩, ⟨0xa681, 0xa680, 14, 2⟩, ⟨0xa723, 0xa722, 7, 2⟩,
   ⟨0xa733, 0xa732, 31, 2⟩, ⟨0xa77a, 0xa779, 2, 2⟩, ⟨0xa77f, 0xa77e, 5, 2⟩, ⟨0xa78c, 0xa78b, 1, 1⟩, ⟨0xa791, 0xa790, 2, 2⟩,
   ⟨0xa794, 0xa7c4, 1, 1⟩, ⟨0xa797, 0xa796, 10, 2⟩, ⟨0xa7b5, 0xa7b4, 8, 2⟩, ⟨0xa7c8, 0xa7c7, 2, 2⟩, ⟨0xa7d1, 0xa7d0, 1, 1⟩,
   ⟨0xa7d7, 0xa7d6, 2, 2⟩, ⟨0xa7f6, 0xa7f5, 1, 1⟩, ⟨0xab53, 0xa7b3, 1, 1⟩, ⟨0xab70, 0x13a0, 80, 1⟩, ⟨0xff41, 0xff21, 26, 1⟩,
   ⟨0x10428, 0x10400, 40, 1⟩, ⟨0x104d8, 0x104b0, 36, 1⟩, ⟨0x10597, 0x10570, 11, 1⟩, ⟨0x105a3, 0x1057c, 15, 1⟩, ⟨0x105b3, 0x1058c, 7, 1⟩,
   ⟨0x105bb, 0x10594, 2, 1⟩, ⟨0x10cc0, 0x10c80, 51, 1⟩, ⟨0x118c0, 0x118a0, 32, 1⟩, ⟨0x16e60, 0x16e40, 32, 1⟩, ⟨0x1e922, 0x1e900, 34, 1⟩]

/-- Each member of a case-folding orbit with the next member of the orbit, in steps that
interleave. -/
def foldSteps : List Step :=
  [⟨0x41, 0x61, 26, 1⟩, ⟨0x61, 0x41, 10, 1⟩, ⟨0x6b, 0x212a, 1, 1⟩, ⟨0x6c, 0x4c, 8, 2⟩, ⟨0x6d, 0x4d, 3, 2⟩,
   ⟨0x73, 0x17f, 1, 1⟩, ⟨0x75, 0x55, 3, 2⟩, ⟨0xb5, 0x39c, 1, 1⟩, ⟨0xc0, 0xe0, 23, 1⟩, ⟨0xd8, 0xf8, 7, 1⟩,
   ⟨0xdf, 0x1e9e, 1, 1⟩, ⟨0xe0, 0xc0, 16, 2⟩, ⟨0xe1, 0xc1, 2, 2⟩, ⟨0xe5, 0x212b, 1, 1⟩, ⟨0xe7, 0xc7, 8, 2⟩,
   ⟨0xf9, 0xd9, 3, 2⟩, ⟨0xff, 0x178, 1, 1⟩, ⟨0x100, 0x101, 24, 2⟩, ⟨0x101, 0x100, 24, 2⟩, ⟨0x132, 0x133, 3, 2⟩,
   ⟨0x133, 0x132, 3, 2⟩, ⟨0x139, 0x13a, 8, 2⟩, ⟨0x13a, 0x139, 8, 2⟩, ⟨0x14a, 0x14b, 23, 2⟩, ⟨0x14b, 0x14a, 23, 2⟩,
   ⟨0x178, 0xff, 1, 1⟩, ⟨0x179, 0x17a, 3, 2⟩, ⟨0x17a, 0x179, 3, 2⟩, ⟨0x17f, 0x53, 1, 1⟩, ⟨0x180, 0x243, 1, 1⟩,
   ⟨0x181, 0x253, 1, 1⟩, ⟨0x182, 0x183, 2, 2⟩, ⟨0x183, 0x182, 2, 2⟩, ⟨0x186, 0x254, 1, 1⟩, ⟨0x187, 0x188, 1, 1⟩,
   ⟨0x188, 0x187, 1, 1⟩, ⟨0x189, 0x256, 2, 1⟩, ⟨0x18b, 0x18c, 1, 1⟩, ⟨0x18c, 0x18b, 1, 1⟩, ⟨0x18e, 0x1dd, 1, 1⟩,
   ⟨0x18f, 0x259, 1, 1⟩, ⟨0x190, 0x25b, 1, 1⟩, ⟨0x191, 0x192, 1, 1⟩, ⟨0x192, 0x191, 1, 1⟩, ⟨0x193, 0x260, 1, 1⟩,
   ⟨0x194, 0x263, 1, 1⟩, ⟨0x195, 0x1f6, 1, 1⟩, ⟨0x196, 0x269, 1, 1⟩, ⟨0x197, 0x268, 1, 1⟩, ⟨0x198, 0x199, 1, 1⟩,
   ⟨0x199, 0x198, 1, 1⟩, ⟨0x19a, 0x23d, 1, 1⟩, ⟨0x19c, 0x26f, 1, 1⟩, ⟨0x19d, 0x272, 1, 1⟩, ⟨0x19e, 0x220, 1, 1⟩,
   ⟨0x19f, 0x275, 1, 1⟩, ⟨0x1a0, 0x1a1, 3, 2⟩, ⟨0x1a1, 0x1a0, 3, 2⟩, ⟨0x1a6, 0x280, 1, 1⟩, ⟨0x1a7, 0x1a8, 1, 1⟩,
   ⟨0x1a8, 0x1a7, 1, 1⟩, ⟨0x1a9, 0x283, 1, 1⟩, ⟨0x1ac, 0x1ad, 1, 1⟩, ⟨0x1ad, 0x1ac, 1, 1⟩, ⟨0x1ae, 0x288, 1, 1⟩,
   ⟨0x1af, 0x1b0, 1, 1⟩, ⟨0x1b0, 0x1af, 1, 1⟩, ⟨0x1b1, 0x28a, 2, 1⟩, ⟨0x1b3, 0x1b4, 2, 2⟩, ⟨0x1b4, 0x1b3, 2, 2⟩,
   ⟨0x1b7, 0x292, 1, 1⟩, ⟨0x1b8, 0x1b9, 1, 1⟩, ⟨0x1b9, 0x1b8, 1, 1⟩, ⟨0x1bc, 0x1bd, 1, 1⟩, ⟨0x1bd, 0x1bc, 1, 1⟩,
   ⟨0x1bf, 0x1f7, 1, 1⟩, ⟨0x1c4, 0x1c5, 2, 1⟩, ⟨0x1c6, 0x1c4, 1, 1⟩, ⟨0x1c7, 0x1c8, 2, 1⟩, ⟨0x1c9, 0x1c7, 1, 1⟩,
   ⟨0x1ca, 0x1cb, 2, 1⟩, ⟨0x1cc, 0x1ca, 1, 1⟩, ⟨0x1cd, 0x1ce, 8, 2⟩, ⟨0x1ce, 0x1cd, 8, 2⟩, ⟨0x1dd, 0x18e, 1, 1⟩,
   ⟨0x1de, 0x1df, 9, 2⟩, ⟨0x1df, 0x1de, 9, 2⟩, ⟨0x1f1, 0x1f2, 2, 1⟩, ⟨0x1f3, 0x1f1, 1, 1⟩, ⟨0x1f4, 0x1f5, 1, 1⟩,
   ⟨0x1f5, 0x1f4, 1, 1⟩, ⟨0x1f6, 0x195, 1, 1⟩, ⟨0x1f7, 0x1bf, 1, 1⟩, ⟨0x1f8, 0x1f9, 20, 2⟩, ⟨0x1f9, 0x1f8, 20, 2⟩,
   ⟨0x220, 0x19e, 1, 1⟩, ⟨0x222, 0x223, 9, 2⟩, ⟨0x223, 0x222, 9, 2⟩, ⟨0x23a, 0x2c65, 1, 1⟩, ⟨0x23b, 0x23c, 1, 1⟩,
   ⟨0x23c, 0x23b, 1, 1⟩, ⟨0x23d, 0x19a, 1, 1⟩, ⟨0x23e, 0x2c66, 1, 1⟩, ⟨0x23f, 0x2c7e, 2, 1⟩, ⟨0x241, 0x242, 1, 1⟩,
   ⟨0x242, 0x241, 1, 1⟩, ⟨0x243, 0x180, 1, 1⟩, ⟨0x244, 0x289, 1, 1⟩, ⟨0x245, 0x28c, 1, 1⟩, ⟨0x246, 0x247, 5, 2⟩,
   ⟨0x247, 0x246, 5, 2⟩, ⟨0x250, 0x2c6f, 1, 1⟩, ⟨0x251, 0x2c6d, 1, 1⟩, ⟨0x252, 0x2c70, 1, 1⟩, ⟨0x253, 0x181, 1, 1⟩,
   ⟨0x254, 0x186, 1, 1⟩, ⟨0x256, 0x189, 2, 1⟩, ⟨0x259, 0x18f, 1, 1⟩, ⟨0x25b, 0x190, 1, 1⟩, ⟨0x25c, 0xa7ab, 1, 1⟩,
   ⟨0x260, 0x193, 1, 1⟩, ⟨0x261, 0xa7ac, 1, 1⟩, ⟨0x263, 0x194, 1, 1⟩, ⟨0x265, 0xa78d, 1, 1⟩, ⟨0x266, 0xa7aa, 1, 1⟩,
   ⟨0x268, 0x197, 1, 1⟩, ⟨0x269, 0x196, 1, 1⟩, ⟨0x26a, 0xa7ae, 1, 1⟩, ⟨0x26b, 0x2c62, 1, 1⟩, ⟨0x26c, 0xa7ad, 1, 1⟩,
   ⟨0x26f, 0x19c, 1, 1⟩, ⟨0x271, 0x2c6e, 1, 1⟩, ⟨0x272, 0x19d, 1, 1⟩, ⟨0x275, 0x19f, 1, 1⟩, ⟨0x27d, 0x2c64, 1, 1⟩,
   ⟨0x280, 0x1a6, 1, 1⟩, ⟨0x282, 0xa7c5, 1, 1⟩, ⟨0x283, 0x1a9, 1, 1⟩, ⟨0x287, 0xa7b1, 1, 1⟩, ⟨0x288, 0x1ae, 1, 1⟩,
   ⟨0x289, 0x244, 1, 1⟩, ⟨0x28a, 0x1b1, 2, 1⟩, ⟨0x28c, 0x245, 1, 1⟩, ⟨0x292, 0x1b7, 1, 1⟩, ⟨0x29d, 0xa7b2, 1, 1⟩,
   ⟨0x29e, 0xa7b0, 1, 1⟩, ⟨0x345, 0x399, 1, 1⟩, ⟨0x370, 0x371, 2, 2⟩, ⟨0x371, 0x370, 2, 2⟩, ⟨0x376, 0x377, 1, 1⟩,
   ⟨0x377, 0x376, 1, 1⟩, ⟨0x37b, 0x3fd, 3, 1⟩, ⟨0x37f, 0x3f3, 1, 1⟩, ⟨0x386, 0x3ac, 1, 1⟩, ⟨0x388, 0x3ad, 3, 1⟩,
   ⟨0x38c, 0x3cc, 1, 1⟩, ⟨0x38e, 0x3cd, 2, 1⟩, ⟨0x391, 0x3b1, 17, 1⟩, ⟨0x3a3, 0x3c2, 1, 1⟩, ⟨0x3a4, 0x3c4, 8, 1⟩,
   ⟨0x3ac, 0x386, 1, 1⟩, ⟨0x3ad, 0x388, 3, 1⟩, ⟨0x3b1, 0x391, 2, 2⟩, ⟨0x3b2, 0x3d0, 1, 1⟩, ⟨0x3b4, 0x394, 2, 2⟩,
   ⟨0x3b5, 0x3f5, 1, 1⟩, ⟨0x3b7, 0x397, 1, 1⟩, ⟨0x3b8, 0x3d1, 1, 1⟩, ⟨0x3b9, 0x1fbe, 1, 1⟩, ⟨0x3ba, 0x3f0, 1, 1⟩,
   ⟨0x3bb, 0x39b, 3, 2⟩, ⟨0x3bc, 0xb5, 1, 1⟩, ⟨0x3be, 0x39e, 1, 1⟩, ⟨0x3c0, 0x3d6, 1, 1⟩, ⟨0x3c1, 0x3f1, 1, 1⟩,
   ⟨0x3c2, 0x3c3, 1, 1⟩, ⟨0x3c3, 0x3a3, 3, 1⟩, ⟨0x3c6, 0x3d5, 1, 1⟩, ⟨0x3c7, 0x3a7, 2, 1⟩, ⟨0x3c9, 0x2126, 1, 1⟩,
   ⟨0x3ca, 0x3aa, 2, 1⟩, ⟨0x3cc, 0x38c, 1, 1⟩, ⟨0x3cd, 0x38e, 2, 1⟩, ⟨0x3cf, 0x3d7, 1, 1⟩, ⟨0x3d0, 0x392, 1, 1⟩,
   ⟨0x3d1, 0x3f4, 1, 1⟩, ⟨0x3d5, 0x3a6, 1, 1⟩, ⟨0x3d6, 0x3a0, 1, 1⟩, ⟨0x3d7, 0x3cf, 1, 1⟩, ⟨0x3d8, 0x3d9, 12, 2⟩,
   ⟨0x3d9, 0x3d8, 12, 2⟩, ⟨0x3f0, 0x39a, 1, 1⟩, ⟨0x3f1, 0x3a1, 1, 1⟩, ⟨0x3f2, 0x3f9, 1, 1⟩, ⟨0x3f3, 0x37f, 1, 1⟩,
   ⟨0x3f4, 0x398, 1, 1⟩, ⟨0x3f5, 0x395, 1, 1⟩, ⟨0x3f7, 0x3f8, 1, 1⟩, ⟨0x3f8, 0x3f7, 1, 1⟩, ⟨0x3f9, 0x3f2, 1, 1⟩,
   ⟨0x3fa, 0x3fb, 1, 1⟩, ⟨0x3fb, 0x3fa, 1, 1⟩, ⟨0x3fd, 0x37b, 3, 1⟩, ⟨0x400, 0x450, 16, 1⟩, ⟨0x410, 0x430, 32, 1⟩,
   ⟨0x430, 0x410, 2, 1⟩, ⟨0x432, 0x1c80, 1, 1⟩, ⟨0x433, 0x413, 7, 2⟩, ⟨0x434, 0x1c81, 1, 1⟩, ⟨0x436, 0x416, 4, 2⟩,
   ⟨0x43e, 0x1c82, 1, 1⟩, ⟨0x440, 0x420, 1, 1⟩, ⟨0x441, 0x1c83, 2, 1⟩, ⟨0x443, 0x423, 7, 1⟩, ⟨0x44a, 0x1c86, 1, 1⟩,
   ⟨0x44b, 0x42b, 5, 1⟩, ⟨0x450, 0x400, 16, 1⟩, ⟨0x460, 0x461, 17, 2⟩, ⟨0x461, 0x460, 1, 1⟩, ⟨0x463, 0x1c87, 1, 1⟩,
   ⟨0x465, 0x464, 15, 2⟩, ⟨0x48a, 0x48b, 27, 2⟩, ⟨0x48b, 0x48a, 27, 2⟩, ⟨0x4c0, 0x4cf, 1, 1⟩, ⟨0x4c1, 0x4c2, 7, 2⟩,
   ⟨0x4c2, 0x4c1, 7, 2⟩, ⟨0x4cf, 0x4c0, 1, 1⟩, ⟨0x4d0, 0x4d1, 48, 2⟩, ⟨0x4d1, 0x4d0, 48, 2⟩, ⟨0x531, 0x561, 38, 1⟩,
   ⟨0x561, 0x531, 38, 1⟩, ⟨0x10a0, 0x2d00, 38, 1⟩, ⟨0x10c7, 0x2d27, 1, 1⟩, ⟨0x10cd, 0x2d2d, 1, 1⟩, ⟨0x10d0, 0x1c90, 43, 1⟩,
   ⟨0x10fd, 0x1cbd, 3, 1⟩, ⟨0x13a0, 0xab70, 80, 1⟩, ⟨0x13f0, 0x13f8, 6, 1⟩, ⟨0x13f8, 0x13f0, 6, 1⟩, ⟨0x1c80, 0x412, 1, 1⟩,
   ⟨0x1c81, 0x414, 1, 1⟩, ⟨0x1c82, 0x41e, 1, 1⟩, ⟨0x1c83, 0x421, 1, 1⟩, ⟨0x1c84, 0x1c85, 1, 1⟩, ⟨0x1c85, 0x422, 1, 1⟩,
   ⟨0x1c86, 0x42a, 1, 1⟩, ⟨0x1c87, 0x462, 1, 1⟩, ⟨0x1c88, 0xa64a, 1, 1⟩, ⟨0x1c90, 0x10d0, 43, 1⟩, ⟨0x1cbd, 0x10fd, 3, 1⟩,
   ⟨0x1d79, 0xa77d, 1, 1⟩, ⟨0x1d7d, 0x2c63, 1, 1⟩, ⟨0x1d8e, 0xa7c6, 1, 1⟩, ⟨0x1e00, 0x1e01, 75, 2⟩, ⟨0x1e01, 0x1e00, 48, 2⟩,
   ⟨0x1e61, 0x1e9b, 1, 1⟩, ⟨0x1e63, 0x1e62, 26, 2⟩, ⟨0x1e9b, 0x1e60, 1, 1⟩, ⟨0x1e9e, 0xdf, 1, 1⟩, ⟨0x1ea0, 0x1ea1, 48, 2⟩,
   ⟨0x1ea1, 0x1ea0, 48, 2⟩, ⟨0x1f00, 0x1f08, 8, 1⟩, ⟨0x1f08, 0x1f00, 8, 1⟩, ⟨0x1f10, 0x1f18, 6, 1⟩, ⟨0x1f18, 0x1f10, 6, 1⟩,
   ⟨0x1f20, 0x1f28, 8, 1⟩, ⟨0x1f28, 0x1f20, 8, 1⟩, ⟨0x1f30, 0x1f38, 8, 1⟩, ⟨0x1f38, 0x1f30, 8, 1⟩, ⟨0x1f40, 0x1f48, 6, 1⟩,
   ⟨0x1f48, 0x1f40, 6, 1⟩, ⟨0x1f51, 0x1f59, 4, 2⟩, ⟨0x1f59, 0x1f51, 4, 2⟩, ⟨0x1f60, 0x1f68, 8, 1⟩, ⟨0x1f68, 0x1f60, 8, 1⟩,
   ⟨0x1f70, 0x1fba, 2, 1⟩, ⟨0x1f72, 0x1fc8, 4, 1⟩, ⟨0x1f76, 0x1fda, 2, 1⟩, ⟨0x1f78, 0x1ff8, 2, 1⟩, ⟨0x1f7a, 0x1fea, 2, 1⟩,
   ⟨0x1f7c, 0x1ffa, 2, 1⟩, ⟨0x1f80, 0x1f88, 8, 1⟩, ⟨0x1f88, 0x1f80, 8, 1⟩, ⟨0x1f90, 0x1f98, 8, 1⟩, ⟨0x1f98, 0x1f90, 8, 1⟩,
   ⟨0x1fa0, 0x1fa8, 8, 1⟩, ⟨0x1fa8, 0x1fa0, 8, 1⟩, ⟨0x1fb0, 0x1fb8, 2, 1⟩, ⟨0x1fb3, 0x1fbc, 1, 1⟩, ⟨0x1fb8, 0x1fb0, 2, 1⟩,
   ⟨0x1fba, 0x1f70, 2, 1⟩, ⟨0x1fbc, 0x1fb3, 1, 1⟩, ⟨0x1fbe, 0x345, 1, 1⟩, ⟨0x1fc3, 0x1fcc, 1, 1⟩, ⟨0x1fc8, 0x1f72, 4, 1⟩,
   ⟨0x1fcc, 0x1fc3, 1, 1⟩, ⟨0x1fd0, 0x1fd8, 2, 1⟩, ⟨0x1fd8, 0x1fd0, 2, 1⟩, ⟨0x1fda, 0x1f76, 2, 1⟩, ⟨0x1fe0, 0x1fe8, 2, 1⟩,
   ⟨0x1fe5, 0x1fec, 1, 1⟩, ⟨0x1fe8, 0x1fe0, 2, 1⟩, ⟨0x1fea, 0x1f7a, 2, 1⟩, ⟨0x1fec, 0x1fe5, 1, 1⟩, ⟨0x1ff3, 0x1ffc, 1, 1⟩,
   ⟨0x1ff8, 0x1f78, 2, 1⟩, ⟨0x1ffa, 0x1f7c, 2, 1⟩, ⟨0x1ffc, 0x1ff3, 1, 1⟩, ⟨0x2126, 0x3a9, 1, 1⟩, ⟨0x212a, 0x4b, 1, 1⟩,
   ⟨0x212b, 0xc5, 1, 1⟩, ⟨0x2132, 0x214e, 1, 1⟩, ⟨0x214e, 0x2132, 1, 1⟩, ⟨0x2160, 0x2170, 16, 1⟩, ⟨0x2170, 0x2160, 16, 1⟩,
   ⟨0x2183, 0x2184, 1, 1⟩, ⟨0x2184, 0x2183, 1, 1⟩, ⟨0x24b6, 0x24d0, 26, 1⟩, ⟨0x24d0, 0x24b6, 26, 1⟩, ⟨0x2c00, 0x2c30, 48, 1⟩,
   ⟨0x2c30, 0x2c00, 48, 1⟩, ⟨0x2c60, 0x2c61, 1, 1⟩, ⟨0x2c61, 0x2c60, 1, 1⟩, ⟨0x2c62, 0x26b, 1, 1⟩, ⟨0x2c63, 0x1d7d, 1, 1⟩,
   ⟨0x2c64, 0x27d, 1, 1⟩, ⟨0x2c65, 0x23a, 1, 1⟩, ⟨0x2c66, 0x23e, 1, 1⟩, ⟨0x2c67, 0x2c68, 3, 2⟩, ⟨0x2c68, 0x2c67, 3, 2⟩,
   ⟨0x2c6d, 0x251, 1, 1⟩, ⟨0x2c6e, 0x271, 1, 1⟩, ⟨0x2c6f, 0x250, 1, 1⟩, ⟨0x2c70, 0x252, 1, 1⟩, ⟨0x2c72, 0x2c73, 1, 1⟩,
   ⟨0x2c73, 0x2c72, 1, 1⟩, ⟨0x2c75, 0x2c76, 1, 1⟩, ⟨0x2c76, 0x2c75, 1, 1⟩, ⟨0x2c7e, 0x23f, 2, 1⟩, ⟨0x2c80, 0x2c81, 50, 2⟩,
   ⟨0x2c81, 0x2c80, 50, 2⟩, ⟨0x2ceb, 0x2cec, 2, 2⟩, ⟨0x2cec, 0x2ceb, 2, 2⟩, ⟨0x2cf2, 0x2cf3, 1, 1⟩, ⟨0x2cf3, 0x2cf2, 1, 1⟩,
   ⟨0x2d00, 0x10a0, 38, 1⟩, ⟨0x2d27, 0x10c7, 1, 1⟩, ⟨0x2d2d, 0x10cd, 1, 1⟩, ⟨0xa640, 0xa641, 23, 2⟩, ⟨0xa641, 0xa640, 5, 2⟩,
   ⟨0xa64b, 0x1c88, 1, 1⟩, ⟨0xa64d, 0xa64c, 17, 2⟩, ⟨0xa680, 0xa681, 14, 2⟩, ⟨0xa681, 0xa680, 14, 2⟩, ⟨0xa722, 0xa723, 7, 2⟩,
   ⟨0xa723, 0xa722, 7, 2⟩, ⟨0xa732, 0xa733, 31, 2⟩, ⟨0xa733, 0xa732, 31, 2⟩, ⟨0xa779, 0xa77a, 2, 2⟩, ⟨0xa77a, 0xa779, 2, 2⟩,
   ⟨0xa77d, 0x1d79, 1, 1⟩, ⟨0xa77e, 0xa77f, 5, 2⟩, ⟨0xa77f, 0xa77e, 5, 2⟩, ⟨0xa78b, 0xa78c, 1, 1⟩, ⟨0xa78c, 0xa78b, 1, 1⟩,
   ⟨0xa78d, 0x265, 1, 1⟩, ⟨0xa790, 0xa791, 2, 2⟩, ⟨0xa791, 0xa790, 2, 2⟩, ⟨0xa794, 0xa7c4, 1, 1⟩, ⟨0xa796, 0xa797, 10, 2⟩,
   ⟨0xa797, 0xa796, 10, 2⟩, ⟨0xa7aa, 0x266, 1, 1⟩, ⟨0xa7ab, 0x25c, 1, 1⟩, ⟨0xa7ac, 0x261, 1, 1⟩, ⟨0xa7ad, 0x26c, 1, 1⟩,
   ⟨0xa7ae, 0x26a, 1, 1⟩, ⟨0xa7b0, 0x29e, 1, 1⟩, ⟨0xa7b1, 0x287, 1, 1⟩, ⟨0xa7b2, 0x29d, 1, 1⟩, ⟨0xa7b3, 0xab53, 1, 1⟩,
   ⟨0xa7b4, 0xa7b5, 8, 2⟩, ⟨0xa7b5, 0xa7b4, 8, 2⟩, ⟨0xa7c4, 0xa794, 1, 1⟩, ⟨0xa7c5, 0x282, 1, 1⟩, ⟨0xa7c6, 0x1d8e, 1, 1⟩,
   ⟨0xa7c7, 0xa7c8, 2, 2⟩, ⟨0xa7c8, 0xa7c7, 2, 2⟩, ⟨0xa7d0, 0xa7d1, 1, 1⟩, ⟨0xa7d1, 0xa7d0, 1, 1⟩, ⟨0xa7d6, 0xa7d7, 2, 2⟩,
   ⟨0xa7d7, 0xa7d6, 2, 2⟩, ⟨0xa7f5, 0xa7f6, 1, 1⟩, ⟨0xa7f6, 0xa7f5, 1, 1⟩, ⟨0xab53, 0xa7b3, 1, 1⟩, ⟨0xab70, 0x13a0, 80, 1⟩,
   ⟨0xff21, 0xff41, 26, 1⟩, ⟨0xff41, 0xff21, 26, 1⟩, ⟨0x10400, 0x10428, 40, 1⟩, ⟨0x10428, 0x10400, 40, 1⟩, ⟨0x104b0, 0x104d8, 36, 1⟩,
   ⟨0x104d8, 0x104b0, 36, 1⟩, ⟨0x10570, 0x10597, 19, 2⟩, ⟨0x10571, 0x10598, 5, 2⟩, ⟨0x1057d, 0x105a4, 7, 2⟩, ⟨0x1058d, 0x105b4, 3, 2⟩,
   ⟨0x10595, 0x105bc, 1, 1⟩, ⟨0x10597, 0x10570, 19, 2⟩, ⟨0x10598, 0x10571, 5, 2⟩, ⟨0x105a4, 0x1057d, 7, 2⟩, ⟨0x105b4, 0x1058d, 3, 2⟩,
   ⟨0x105bc, 0x10595, 1, 1⟩, ⟨0x10c80, 0x10cc0, 51, 1⟩, ⟨0x10cc0, 0x10c80, 51, 1⟩, ⟨0x118a0, 0x118c0, 32, 1⟩, ⟨0x118c0, 0x118a0, 32, 1⟩,
   ⟨0x16e40, 0x16e60, 32, 1⟩, ⟨0x16e60, 0x16e40, 32, 1⟩, ⟨0x1e900, 0x1e922, 34, 1⟩, ⟨0x1e922, 0x1e900, 34, 1⟩]

/-- The lower-case pairs, read once. -/
def lowerTable : Array (Nat × Nat) := Step.table lowerSteps

/-- The upper-case pairs, read once. -/
def upperTable : Array (Nat × Nat) := Step.table upperSteps

/-- The orbit steps, read once and sorted. -/
def foldTable : Array (Nat × Nat) := Step.sortedTable foldSteps

/-- The simple lower case of a character. -/
def toLower (c : Char) : Char :=
  if c.toNat < 0x80 then
    (if 'A' ≤ c ∧ c ≤ 'Z' then Char.ofNat (c.toNat + 32) else c)
  else ((pairValue? lowerTable c.toNat).map Char.ofNat).getD c

/-- The simple upper case of a character. -/
def toUpper (c : Char) : Char :=
  if c.toNat < 0x80 then
    (if 'a' ≤ c ∧ c ≤ 'z' then Char.ofNat (c.toNat - 32) else c)
  else ((pairValue? upperTable c.toNat).map Char.ofNat).getD c

/-- The next member of a code point's case-folding orbit, in increasing order with
wrap-around; a code point alone in its orbit is its own next member. -/
def foldNext (c : Nat) : Nat := (pairValue? foldTable c).getD c

/-- The members of a code point's case-folding orbit other than itself, in the order
`foldNext` visits them. Orbits have at most four members. -/
def foldOthers (c : Nat) : List Nat :=
  let a := foldNext c
  if a == c then [] else
  let b := foldNext a
  if b == c then [a] else
  let d := foldNext b
  if d == c then [a, b] else [a, b, d]

end EdgeQuery.Unicode
