import EdgeQuery.Text.Unicode.Runs
/-! # Scripts of code points

Every code point belongs to one script of the Unicode standard (version 15.0), or to the
script Unknown. Patterns name scripts in character classes such as `\p{Greek}`. -/

namespace EdgeQuery.Unicode

/-- The names of the scripts, in the order the run table numbers them. -/
def scriptNames : String :=
  "Common Latin Bopomofo Inherited Greek Unknown Coptic Cyrillic Armenian Hebrew Arabic Syriac Thaana Nko Samaritan Mandaic Devanagari Bengali Gurmukhi Gujarati Oriya Tamil Telugu Kannada Malayalam Sinhala Thai Lao Tibetan Myanmar Georgian Hangul Ethiopic Cherokee Canadian_Aboriginal Ogham Runic Tagalog Hanunoo Buhid Tagbanwa Khmer Mongolian Limbu Tai_Le New_Tai_Lue Buginese Tai_Tham Balinese Sundanese Batak Lepcha Ol_Chiki Braille Glagolitic Tifinagh Han Hiragana Katakana Yi Lisu Vai Bamum Syloti_Nagri Phags_Pa Saurashtra Kayah_Li Rejang Javanese Cham Tai_Viet Meetei_Mayek Linear_B Lycian Carian Old_Italic Gothic Old_Permic Ugaritic Old_Persian Deseret Shavian Osmanya Osage Elbasan Caucasian_Albanian Vithkuqi Linear_A Cypriot Imperial_Aramaic Palmyrene Nabataean Hatran Phoenician Lydian Meroitic_Hieroglyphs Meroitic_Cursive Kharoshthi Old_South_Arabian Old_North_Arabian Manichaean Avestan Inscriptional_Parthian Inscriptional_Pahlavi Psalter_Pahlavi Old_Turkic Old_Hungarian Hanifi_Rohingya Yezidi Old_Sogdian Sogdian Old_Uyghur Chorasmian Elymaic Brahmi Kaithi Sora_Sompeng Chakma Mahajani Sharada Khojki Multani Khudawadi Grantha Newa Tirhuta Siddham Modi Takri Ahom Dogra Warang_Citi Dives_Akuru Nandinagari Zanabazar_Square Soyombo Pau_Cin_Hau Bhaiksuki Marchen Masaram_Gondi Gunjala_Gondi Makasar Kawi Cuneiform Cypro_Minoan Egyptian_Hieroglyphs Anatolian_Hieroglyphs Mro Tangsa Bassa_Vah Pahawh_Hmong Medefaidrin Miao Tangut Nushu Khitan_Small_Script Duployan SignWriting Nyiakeng_Puachue_Hmong Toto Wancho Nag_Mundari Mende_Kikakui Adlam"

/-- Where each run of one script starts, with the number of its script. -/
def scriptText : String :=
  "0:0 41:1 5b:0 61:1 7b:0 aa:1 ab:0 ba:1 bb:0 c0:1 d7:0 d8:1 f7:0 f8:1 2b9:0 2e0:1 2e5:0 2ea:2 2ec:0 300:3 370:4 374:0 375:4 378:5 37a:4 37e:0 37f:4 380:5 384:4 385:0 386:4 387:0 388:4 38b:5 38c:4 38d:5 38e:4 3a2:5 3a3:4 3e2:6 3f0:4 400:7 485:3 487:7 530:5 531:8 557:5 559:8 58b:5 58d:8 590:5 591:9 5c8:5 5d0:9 5eb:5 5ef:9 5f5:5 600:10 605:0 606:10 60c:0 60d:10 61b:0 61c:10 61f:0 620:10 640:0 641:10 64b:3 656:10 670:3 671:10 6dd:0 6de:10 700:11 70e:5 70f:11 74b:5 74d:11 750:10 780:12 7b2:5 7c0:13 7fb:5 7fd:13 800:14 82e:5 830:14 83f:5 840:15 85c:5 85e:15 85f:5 860:11 86b:5 870:10 88f:5 890:10 892:5 898:10 8e2:0 8e3:10 900:16 951:3 955:16 964:0 966:16 980:17 984:5 985:17 98d:5 98f:17 991:5 993:17 9a9:5 9aa:17 9b1:5 9b2:17 9b3:5 9b6:17 9ba:5 9bc:17 9c5:5 9c7:17 9c9:5 9cb:17 9cf:5 9d7:17 9d8:5 9dc:17 9de:5 9df:17 9e4:5 9e6:17 9ff:5 a01:18 a04:5 a05:18 a0b:5 a0f:18 a11:5 a13:18 a29:5 a2a:18 a31:5 a32:18 a34:5 a35:18 a37:5 a38:18 a3a:5 a3c:18 a3d:5 a3e:18 a43:5 a47:18 a49:5 a4b:18 a4e:5 a51:18 a52:5 a59:18 a5d:5 a5e:18 a5f:5 a66:18 a77:5 a81:19 a84:5 a85:19 a8e:5 a8f:19 a92:5 a93:19 aa9:5 aaa:19 ab1:5 ab2:19 ab4:5 ab5:19 aba:5 abc:19 ac6:5 ac7:19 aca:5 acb:19 ace:5 ad0:19 ad1:5 ae0:19 ae4:5 ae6:19 af2:5 af9:19 b00:5 b01:20 b04:5 b05:20 b0d:5 b0f:20 b11:5 b13:20 b29:5 b2a:20 b31:5 b32:20 b34:5 b35:20 b3a:5 b3c:20 b45:5 b47:20 b49:5 b4b:20 b4e:5 b55:20 b58:5 b5c:20 b5e:5 b5f:20 b64:5 b66:20 b78:5 b82:21 b84:5 b85:21 b8b:5 b8e:21 b91:5 b92:21 b96:5 b99:21 b9b:5 b9c:21 b9d:5 b9e:21 ba0:5 ba3:21 ba5:5 ba8:21 bab:5 bae:21 bba:5 bbe:21 bc3:5 bc6:21 bc9:5 bca:21 bce:5 bd0:21 bd1:5 bd7:21 bd8:5 be6:21 bfb:5 c00:22 c0d:5 c0e:22 c11:5 c12:22 c29:5 c2a:22 c3a:5 c3c:22 c45:5 c46:22 c49:5 c4a:22 c4e:5 c55:22 c57:5 c58:22 c5b:5 c5d:22 c5e:5 c60:22 c64:5 c66:22 c70:5 c77:22 c80:23 c8d:5 c8e:23 c91:5 c92:23 ca9:5 caa:23 cb4:5 cb5:23 cba:5 cbc:23 cc5:5 cc6:23 cc9:5 cca:23 cce:5 cd5:23 cd7:5 cdd:23 cdf:5 ce0:23 ce4:5 ce6:23 cf0:5 cf1:23 cf4:5 d00:24 d0d:5 d0e:24 d11:5 d12:24 d45:5 d46:24 d49:5 d4a:24 d50:5 d54:24 d64:5 d66:24 d80:5 d81:25 d84:5 d85:25 d97:5 d9a:25 db2:5 db3:25 dbc:5 dbd:25 dbe:5 dc0:25 dc7:5 dca:25 dcb:5 dcf:25 dd5:5 dd6:25 dd7:5 dd8:25 de0:5 de6:25 df0:5 df2:25 df5:5 e01:26 e3b:5 e3f:0 e40:26 e5c:5 e81:27 e83:5 e84:27 e85:5 e86:27 e8b:5 e8c:27 ea4:5 ea5:27 ea6:5 ea7:27 ebe:5 ec0:27 ec5:5 ec6:27 ec7:5 ec8:27 ecf:5 ed0:27 eda:5 edc:27 ee0:5 f00:28 f48:5 f49:28 f6d:5 f71:28 f98:5 f99:28 fbd:5 fbe:28 fcd:5 fce:28 fd5:0 fd9:28 fdb:5 1000:29 10a0:30 10c6:5 10c7:30 10c8:5 10cd:30 10ce:5 10d0:30 10fb:0 10fc:30 1100:31 1200:32 1249:5 124a:32 124e:5 1250:32 1257:5 1258:32 1259:5 125a:32 125e:5 1260:32 1289:5 128a:32 128e:5 1290:32 12b1:5 12b2:32 12b6:5 12b8:32 12bf:5 12c0:32 12c1:5 12c2:32 12c6:5 12c8:32 12d7:5 12d8:32 1311:5 1312:32 1316:5 1318:32 135b:5 135d:32 137d:5 1380:32 139a:5 13a0:33 13f6:5 13f8:33 13fe:5 1400:34 1680:35 169d:5 16a0:36 16eb:0 16ee:36 16f9:5 1700:37 1716:5 171f:37 1720:38 1735:0 1737:5 1740:39 1754:5 1760:40 176d:5 176e:40 1771:5 1772:40 1774:5 1780:41 17de:5 17e0:41 17ea:5 17f0:41 17fa:5 1800:42 1802:0 1804:42 1805:0 1806:42 181a:5 1820:42 1879:5 1880:42 18ab:5 18b0:34 18f6:5 1900:43 191f:5 1920:43 192c:5 1930:43 193c:5 1940:43 1941:5 1944:43 1950:44 196e:5 1970:44 1975:5 1980:45 19ac:5 19b0:45 19ca:5 19d0:45 19db:5 19de:45 19e0:41 1a00:46 1a1c:5 1a1e:46 1a20:47 1a5f:5 1a60:47 1a7d:5 1a7f:47 1a8a:5 1a90:47 1a9a:5 1aa0:47 1aae:5 1ab0:3 1acf:5 1b00:48 1b4d:5 1b50:48 1b7f:5 1b80:49 1bc0:50 1bf4:5 1bfc:50 1c00:51 1c38:5 1c3b:51 1c4a:5 1c4d:51 1c50:52 1c80:7 1c89:5 1c90:30 1cbb:5 1cbd:30 1cc0:49 1cc8:5 1cd0:3 1cd3:0 1cd4:3 1ce1:0 1ce2:3 1ce9:0 1ced:3 1cee:0 1cf4:3 1cf5:0 1cf8:3 1cfa:0 1cfb:5 1d00:1 1d26:4 1d2b:7 1d2c:1 1d5d:4 1d62:1 1d66:4 1d6b:1 1d78:7 1d79:1 1dbf:4 1dc0:3 1e00:1 1f00:4 1f16:5 1f18:4 1f1e:5 1f20:4 1f46:5 1f48:4 1f4e:5 1f50:4 1f58:5 1f59:4 1f5a:5 1f5b:4 1f5c:5 1f5d:4 1f5e:5 1f5f:4 1f7e:5 1f80:4 1fb5:5 1fb6:4 1fc5:5 1fc6:4 1fd4:5 1fd6:4 1fdc:5 1fdd:4 1ff0:5 1ff2:4 1ff5:5 1ff6:4 1fff:5 2000:0 200c:3 200e:0 2065:5 2066:0 2071:1 2072:5 2074:0 207f:1 2080:0 208f:5 2090:1 209d:5 20a0:0 20c1:5 20d0:3 20f1:5 2100:0 2126:4 2127:0 212a:1 212c:0 2132:1 2133:0 214e:1 214f:0 2160:1 2189:0 218c:5 2190:0 2427:5 2440:0 244b:5 2460:0 2800:53 2900:0 2b74:5 2b76:0 2b96:5 2b97:0 2c00:54 2c60:1 2c80:6 2cf4:5 2cf9:6 2d00:30 2d26:5 2d27:30 2d28:5 2d2d:30 2d2e:5 2d30:55 2d68:5 2d6f:55 2d71:5 2d7f:55 2d80:32 2d97:5 2da0:32 2da7:5 2da8:32 2daf:5 2db0:32 2db7:5 2db8:32 2dbf:5 2dc0:32 2dc7:5 2dc8:32 2dcf:5 2dd0:32 2dd7:5 2dd8:32 2ddf:5 2de0:7 2e00:0 2e5e:5 2e80:56 2e9a:5 2e9b:56 2ef4:5 2f00:56 2fd6:5 2ff0:0 2ffc:5 3000:0 3005:56 3006:0 3007:56 3008:0 3021:56 302a:3 302e:31 3030:0 3038:56 303c:0 3040:5 3041:57 3097:5 3099:3 309b:0 309d:57 30a0:0 30a1:58 30fb:0 30fd:58 3100:5 3105:2 3130:5 3131:31 318f:5 3190:0 31a0:2 31c0:0 31e4:5 31f0:58 3200:31 321f:5 3220:0 3260:31 327f:0 32d0:58 32ff:0 3300:58 3358:0 3400:56 4dc0:0 4e00:56 a000:59 a48d:5 a490:59 a4c7:5 a4d0:60 a500:61 a62c:5 a640:7 a6a0:62 a6f8:5 a700:0 a722:1 a788:0 a78b:1 a7cb:5 a7d0:1 a7d2:5 a7d3:1 a7d4:5 a7d5:1 a7da:5 a7f2:1 a800:63 a82d:5 a830:0 a83a:5 a840:64 a878:5 a880:65 a8c6:5 a8ce:65 a8da:5 a8e0:16 a900:66 a92e:0 a92f:66 a930:67 a954:5 a95f:67 a960:31 a97d:5 a980:68 a9ce:5 a9cf:0 a9d0:68 a9da:5 a9de:68 a9e0:29 a9ff:5 aa00:69 aa37:5 aa40:69 aa4e:5 aa50:69 aa5a:5 aa5c:69 aa60:29 aa80:70 aac3:5 aadb:70 aae0:71 aaf7:5 ab01:32 ab07:5 ab09:32 ab0f:5 ab11:32 ab17:5 ab20:32 ab27:5 ab28:32 ab2f:5 ab30:1 ab5b:0 ab5c:1 ab65:4 ab66:1 ab6a:0 ab6c:5 ab70:33 abc0:71 abee:5 abf0:71 abfa:5 ac00:31 d7a4:5 d7b0:31 d7c7:5 d7cb:31 d7fc:5 f900:56 fa6e:5 fa70:56 fada:5 fb00:1 fb07:5 fb13:8 fb18:5 fb1d:9 fb37:5 fb38:9 fb3d:5 fb3e:9 fb3f:5 fb40:9 fb42:5 fb43:9 fb45:5 fb46:9 fb50:10 fbc3:5 fbd3:10 fd3e:0 fd40:10 fd90:5 fd92:10 fdc8:5 fdcf:10 fdd0:5 fdf0:10 fe00:3 fe10:0 fe1a:5 fe20:3 fe2e:7 fe30:0 fe53:5 fe54:0 fe67:5 fe68:0 fe6c:5 fe70:10 fe75:5 fe76:10 fefd:5 feff:0 ff00:5 ff01:0 ff21:1 ff3b:0 ff41:1 ff5b:0 ff66:58 ff70:0 ff71:58 ff9e:0 ffa0:31 ffbf:5 ffc2:31 ffc8:5 ffca:31 ffd0:5 ffd2:31 ffd8:5 ffda:31 ffdd:5 ffe0:0 ffe7:5 ffe8:0 ffef:5 fff9:0 fffe:5 10000:72 1000c:5 1000d:72 10027:5 10028:72 1003b:5 1003c:72 1003e:5 1003f:72 1004e:5 10050:72 1005e:5 10080:72 100fb:5 10100:0 10103:5 10107:0 10134:5 10137:0 10140:4 1018f:5 10190:0 1019d:5 101a0:4 101a1:5 101d0:0 101fd:3 101fe:5 10280:73 1029d:5 102a0:74 102d1:5 102e0:3 102e1:0 102fc:5 10300:75 10324:5 1032d:75 10330:76 1034b:5 10350:77 1037b:5 10380:78 1039e:5 1039f:78 103a0:79 103c4:5 103c8:79 103d6:5 10400:80 10450:81 10480:82 1049e:5 104a0:82 104aa:5 104b0:83 104d4:5 104d8:83 104fc:5 10500:84 10528:5 10530:85 10564:5 1056f:85 10570:86 1057b:5 1057c:86 1058b:5 1058c:86 10593:5 10594:86 10596:5 10597:86 105a2:5 105a3:86 105b2:5 105b3:86 105ba:5 105bb:86 105bd:5 10600:87 10737:5 10740:87 10756:5 10760:87 10768:5 10780:1 10786:5 10787:1 107b1:5 107b2:1 107bb:5 10800:88 10806:5 10808:88 10809:5 1080a:88 10836:5 10837:88 10839:5 1083c:88 1083d:5 1083f:88 10840:89 10856:5 10857:89 10860:90 10880:91 1089f:5 108a7:91 108b0:5 108e0:92 108f3:5 108f4:92 108f6:5 108fb:92 10900:93 1091c:5 1091f:93 10920:94 1093a:5 1093f:94 10940:5 10980:95 109a0:96 109b8:5 109bc:96 109d0:5 109d2:96 10a00:97 10a04:5 10a05:97 10a07:5 10a0c:97 10a14:5 10a15:97 10a18:5 10a19:97 10a36:5 10a38:97 10a3b:5 10a3f:97 10a49:5 10a50:97 10a59:5 10a60:98 10a80:99 10aa0:5 10ac0:100 10ae7:5 10aeb:100 10af7:5 10b00:101 10b36:5 10b39:101 10b40:102 10b56:5 10b58:102 10b60:103 10b73:5 10b78:103 10b80:104 10b92:5 10b99:104 10b9d:5 10ba9:104 10bb0:5 10c00:105 10c49:5 10c80:106 10cb3:5 10cc0:106 10cf3:5 10cfa:106 10d00:107 10d28:5 10d30:107 10d3a:5 10e60:10 10e7f:5 10e80:108 10eaa:5 10eab:108 10eae:5 10eb0:108 10eb2:5 10efd:10 10f00:109 10f28:5 10f30:110 10f5a:5 10f70:111 10f8a:5 10fb0:112 10fcc:5 10fe0:113 10ff7:5 11000:114 1104e:5 11052:114 11076:5 1107f:114 11080:115 110c3:5 110cd:115 110ce:5 110d0:116 110e9:5 110f0:116 110fa:5 11100:117 11135:5 11136:117 11148:5 11150:118 11177:5 11180:119 111e0:5 111e1:25 111f5:5 11200:120 11212:5 11213:120 11242:5 11280:121 11287:5 11288:121 11289:5 1128a:121 1128e:5 1128f:121 1129e:5 1129f:121 112aa:5 112b0:122 112eb:5 112f0:122 112fa:5 11300:123 11304:5 11305:123 1130d:5 1130f:123 11311:5 11313:123 11329:5 1132a:123 11331:5 11332:123 11334:5 11335:123 1133a:5 1133b:3 1133c:123 11345:5 11347:123 11349:5 1134b:123 1134e:5 11350:123 11351:5 11357:123 11358:5 1135d:123 11364:5 11366:123 1136d:5 11370:123 11375:5 11400:124 1145c:5 1145d:124 11462:5 11480:125 114c8:5 114d0:125 114da:5 11580:126 115b6:5 115b8:126 115de:5 11600:127 11645:5 11650:127 1165a:5 11660:42 1166d:5 11680:128 116ba:5 116c0:128 116ca:5 11700:129 1171b:5 1171d:129 1172c:5 11730:129 11747:5 11800:130 1183c:5 118a0:131 118f3:5 118ff:131 11900:132 11907:5 11909:132 1190a:5 1190c:132 11914:5 11915:132 11917:5 11918:132 11936:5 11937:132 11939:5 1193b:132 11947:5 11950:132 1195a:5 119a0:133 119a8:5 119aa:133 119d8:5 119da:133 119e5:5 11a00:134 11a48:5 11a50:135 11aa3:5 11ab0:34 11ac0:136 11af9:5 11b00:16 11b0a:5 11c00:137 11c09:5 11c0a:137 11c37:5 11c38:137 11c46:5 11c50:137 11c6d:5 11c70:138 11c90:5 11c92:138 11ca8:5 11ca9:138 11cb7:5 11d00:139 11d07:5 11d08:139 11d0a:5 11d0b:139 11d37:5 11d3a:139 11d3b:5 11d3c:139 11d3e:5 11d3f:139 11d48:5 11d50:139 11d5a:5 11d60:140 11d66:5 11d67:140 11d69:5 11d6a:140 11d8f:5 11d90:140 11d92:5 11d93:140 11d99:5 11da0:140 11daa:5 11ee0:141 11ef9:5 11f00:142 11f11:5 11f12:142 11f3b:5 11f3e:142 11f5a:5 11fb0:60 11fb1:5 11fc0:21 11ff2:5 11fff:21 12000:143 1239a:5 12400:143 1246f:5 12470:143 12475:5 12480:143 12544:5 12f90:144 12ff3:5 13000:145 13456:5 14400:146 14647:5 16800:62 16a39:5 16a40:147 16a5f:5 16a60:147 16a6a:5 16a6e:147 16a70:148 16abf:5 16ac0:148 16aca:5 16ad0:149 16aee:5 16af0:149 16af6:5 16b00:150 16b46:5 16b50:150 16b5a:5 16b5b:150 16b62:5 16b63:150 16b78:5 16b7d:150 16b90:5 16e40:151 16e9b:5 16f00:152 16f4b:5 16f4f:152 16f88:5 16f8f:152 16fa0:5 16fe0:153 16fe1:154 16fe2:56 16fe4:155 16fe5:5 16ff0:56 16ff2:5 17000:153 187f8:5 18800:153 18b00:155 18cd6:5 18d00:153 18d09:5 1aff0:58 1aff4:5 1aff5:58 1affc:5 1affd:58 1afff:5 1b000:58 1b001:57 1b120:58 1b123:5 1b132:57 1b133:5 1b150:57 1b153:5 1b155:58 1b156:5 1b164:58 1b168:5 1b170:154 1b2fc:5 1bc00:156 1bc6b:5 1bc70:156 1bc7d:5 1bc80:156 1bc89:5 1bc90:156 1bc9a:5 1bc9c:156 1bca0:0 1bca4:5 1cf00:3 1cf2e:5 1cf30:3 1cf47:5 1cf50:0 1cfc4:5 1d000:0 1d0f6:5 1d100:0 1d127:5 1d129:0 1d167:3 1d16a:0 1d17b:3 1d183:0 1d185:3 1d18c:0 1d1aa:3 1d1ae:0 1d1eb:5 1d200:4 1d246:5 1d2c0:0 1d2d4:5 1d2e0:0 1d2f4:5 1d300:0 1d357:5 1d360:0 1d379:5 1d400:0 1d455:5 1d456:0 1d49d:5 1d49e:0 1d4a0:5 1d4a2:0 1d4a3:5 1d4a5:0 1d4a7:5 1d4a9:0 1d4ad:5 1d4ae:0 1d4ba:5 1d4bb:0 1d4bc:5 1d4bd:0 1d4c4:5 1d4c5:0 1d506:5 1d507:0 1d50b:5 1d50d:0 1d515:5 1d516:0 1d51d:5 1d51e:0 1d53a:5 1d53b:0 1d53f:5 1d540:0 1d545:5 1d546:0 1d547:5 1d54a:0 1d551:5 1d552:0 1d6a6:5 1d6a8:0 1d7cc:5 1d7ce:0 1d800:157 1da8c:5 1da9b:157 1daa0:5 1daa1:157 1dab0:5 1df00:1 1df1f:5 1df25:1 1df2b:5 1e000:54 1e007:5 1e008:54 1e019:5 1e01b:54 1e022:5 1e023:54 1e025:5 1e026:54 1e02b:5 1e030:7 1e06e:5 1e08f:7 1e090:5 1e100:158 1e12d:5 1e130:158 1e13e:5 1e140:158 1e14a:5 1e14e:158 1e150:5 1e290:159 1e2af:5 1e2c0:160 1e2fa:5 1e2ff:160 1e300:5 1e4d0:161 1e4fa:5 1e7e0:32 1e7e7:5 1e7e8:32 1e7ec:5 1e7ed:32 1e7ef:5 1e7f0:32 1e7ff:5 1e800:162 1e8c5:5 1e8c7:162 1e8d7:5 1e900:163 1e94c:5 1e950:163 1e95a:5 1e95e:163 1e960:5 1ec71:0 1ecb5:5 1ed01:0 1ed3e:5 1ee00:10 1ee04:5 1ee05:10 1ee20:5 1ee21:10 1ee23:5 1ee24:10 1ee25:5 1ee27:10 1ee28:5 1ee29:10 1ee33:5 1ee34:10 1ee38:5 1ee39:10 1ee3a:5 1ee3b:10 1ee3c:5 1ee42:10 1ee43:5 1ee47:10 1ee48:5 1ee49:10 1ee4a:5 1ee4b:10 1ee4c:5 1ee4d:10 1ee50:5 1ee51:10 1ee53:5 1ee54:10 1ee55:5 1ee57:10 1ee58:5 1ee59:10 1ee5a:5 1ee5b:10 1ee5c:5 1ee5d:10 1ee5e:5 1ee5f:10 1ee60:5 1ee61:10 1ee63:5 1ee64:10 1ee65:5 1ee67:10 1ee6b:5 1ee6c:10 1ee73:5 1ee74:10 1ee78:5 1ee79:10 1ee7d:5 1ee7e:10 1ee7f:5 1ee80:10 1ee8a:5 1ee8b:10 1ee9c:5 1eea1:10 1eea4:5 1eea5:10 1eeaa:5 1eeab:10 1eebc:5 1eef0:10 1eef2:5 1f000:0 1f02c:5 1f030:0 1f094:5 1f0a0:0 1f0af:5 1f0b1:0 1f0c0:5 1f0c1:0 1f0d0:5 1f0d1:0 1f0f6:5 1f100:0 1f1ae:5 1f1e6:0 1f200:57 1f201:0 1f203:5 1f210:0 1f23c:5 1f240:0 1f249:5 1f250:0 1f252:5 1f260:0 1f266:5 1f300:0 1f6d8:5 1f6dc:0 1f6ed:5 1f6f0:0 1f6fd:5 1f700:0 1f777:5 1f77b:0 1f7da:5 1f7e0:0 1f7ec:5 1f7f0:0 1f7f1:5 1f800:0 1f80c:5 1f810:0 1f848:5 1f850:0 1f85a:5 1f860:0 1f888:5 1f890:0 1f8ae:5 1f8b0:0 1f8b2:5 1f900:0 1fa54:5 1fa60:0 1fa6e:5 1fa70:0 1fa7d:5 1fa80:0 1fa89:5 1fa90:0 1fabe:5 1fabf:0 1fac6:5 1face:0 1fadc:5 1fae0:0 1fae9:5 1faf0:0 1faf9:5 1fb00:0 1fb93:5 1fb94:0 1fbcb:5 1fbf0:0 1fbfa:5 20000:56 2a6e0:5 2a700:56 2b73a:5 2b740:56 2b81e:5 2b820:56 2cea2:5 2ceb0:56 2ebe1:5 2f800:56 2fa1e:5 30000:56 3134b:5 31350:56 323b0:5 e0001:0 e0002:5 e0020:0 e0080:5 e0100:3 e01f0:5 110000:5"

/-- The script runs, read once. -/
def scriptTable : Array (Nat × Nat) := readPairs scriptText

/-- The script names, read once. -/
def scriptNameList : Array String := (scriptNames.splitOn " ").toArray

/-- The number of a script name. -/
def scriptIndex? (name : String) : Option Nat := scriptNameList.findIdx? (· == name)

/-- Whether a code point belongs to the script of the given number. -/
def inScript (n : Nat) (c : Char) : Bool := runValue? scriptTable c.toNat == some n

end EdgeQuery.Unicode
