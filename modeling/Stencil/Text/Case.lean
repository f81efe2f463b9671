import Stencil.Text.Bytes
import Stencil.Text.Category

/-!
# Letter case

The simple case mappings of Unicode 15: each character maps to one character.
A row of a table gives a range of code points and the image of its first one;
the others of the range move by the same distance.
-/

namespace Stencil

/-- Code points that move by the same distance, and the image of the first. -/
structure CaseRange where
  range : CodeRange
  image : Nat
  deriving Repr, Inhabited

/-- Read one row, written `RANGE:IMAGE`. -/
def CaseRange.read (s : List Char) : CaseRange :=
  let (r, t) := s.span (· ≠ ':')
  { range := CodeRange.read r, image := hexNumber (t.drop 1) }

/-- Read a table of rows. -/
def CaseRange.readTable (s : String) : List CaseRange := (tableRows s).map CaseRange.read

/-- The image of a character under a table; a character in no row is its own image. -/
def CaseRange.apply (table : List CaseRange) (c : Char) : Char :=
  match table.find? (·.range.contains c.toNat) with
  | some r => Char.ofNat (r.image + (c.toNat - r.range.lo))
  | none => c

/-- The characters that have a capital form. -/
def upperRows : List CaseRange :=
  CaseRange.readTable "61-7A:41 B5:39C E0-F6:C0 F8-FE:D8 FF:178 101-12F/2:100 131:49 133-137/2:132
    13A-148/2:139 14B-177/2:14A 17A-17E/2:179 17F:53 180:243 183-185/2:182 188:187
    18C:18B 192:191 195:1F6 199:198 19A:23D 19E:220 1A1-1A5/2:1A0 1A8:1A7 1AD:1AC
    1B0:1AF 1B4-1B6/2:1B3 1B9:1B8 1BD:1BC 1BF:1F7 1C5:1C4 1C6:1C4 1C8:1C7 1C9:1C7
    1CB:1CA 1CC:1CA 1CE-1DC/2:1CD 1DD:18E 1DF-1EF/2:1DE 1F2:1F1 1F3:1F1 1F5:1F4
    1F9-21F/2:1F8 223-233/2:222 23C:23B 23F-240:2C7E 242:241 247-24F/2:246 250:2C6F
    251:2C6D 252:2C70 253:181 254:186 256-257:189 259:18F 25B:190 25C:A7AB 260:193
    261:A7AC 263:194 265:A78D 266:A7AA 268:197 269:196 26A:A7AE 26B:2C62 26C:A7AD
    26F:19C 271:2C6E 272:19D 275:19F 27D:2C64 280:1A6 282:A7C5 283:1A9 287:A7B1 288:1AE
    289:244 28A-28B:1B1 28C:245 292:1B7 29D:A7B2 29E:A7B0 345:399 371-373/2:370 377:376
    37B-37D:3FD 3AC:386 3AD-3AF:388 3B1-3C1:391 3C2:3A3 3C3-3CB:3A3 3CC:38C 3CD-3CE:38E
    3D0:392 3D1:398 3D5:3A6 3D6:3A0 3D7:3CF 3D9-3EF/2:3D8 3F0:39A 3F1:3A1 3F2:3F9
    3F3:37F 3F5:395 3F8:3F7 3FB:3FA 430-44F:410 450-45F:400 461-481/2:460 48B-4BF/2:48A
    4C2-4CE/2:4C1 4CF:4C0 4D1-52F/2:4D0 561-586:531 10D0-10FA:1C90 10FD-10FF:1CBD
    13F8-13FD:13F0 1C80:412 1C81:414 1C82:41E 1C83-1C84:421 1C85:422 1C86:42A 1C87:462
    1C88:A64A 1D79:A77D 1D7D:2C63 1D8E:A7C6 1E01-1E95/2:1E00 1E9B:1E60 1EA1-1EFF/2:1EA0
    1F00-1F07:1F08 1F10-1F15:1F18 1F20-1F27:1F28 1F30-1F37:1F38 1F40-1F45:1F48
    1F51-1F57/2:1F59 1F60-1F67:1F68 1F70-1F71:1FBA 1F72-1F75:1FC8 1F76-1F77:1FDA
    1F78-1F79:1FF8 1F7A-1F7B:1FEA 1F7C-1F7D:1FFA 1F80-1F87:1F88 1F90-1F97:1F98
    1FA0-1FA7:1FA8 1FB0-1FB1:1FB8 1FB3:1FBC 1FBE:399 1FC3:1FCC 1FD0-1FD1:1FD8
    1FE0-1FE1:1FE8 1FE5:1FEC 1FF3:1FFC 214E:2132 2170-217F:2160 2184:2183
    24D0-24E9:24B6 2C30-2C5F:2C00 2C61:2C60 2C65:23A 2C66:23E 2C68-2C6C/2:2C67
    2C73:2C72 2C76:2C75 2C81-2CE3/2:2C80 2CEC-2CEE/2:2CEB 2CF3:2CF2 2D00-2D25:10A0
    2D27:10C7 2D2D:10CD A641-A66D/2:A640 A681-A69B/2:A680 A723-A72F/2:A722
    A733-A76F/2:A732 A77A-A77C/2:A779 A77F-A787/2:A77E A78C:A78B A791-A793/2:A790
    A794:A7C4 A797-A7A9/2:A796 A7B5-A7C3/2:A7B4 A7C8-A7CA/2:A7C7 A7D1:A7D0
    A7D7-A7D9/2:A7D6 A7F6:A7F5 AB53:A7B3 AB70-ABBF:13A0 FF41-FF5A:FF21
    10428-1044F:10400 104D8-104FB:104B0 10597-105A1:10570 105A3-105B1:1057C
    105B3-105B9:1058C 105BB-105BC:10594 10CC0-10CF2:10C80 118C0-118DF:118A0
    16E60-16E7F:16E40 1E922-1E943:1E900"

/-- The characters that have a small form. -/
def lowerRows : List CaseRange :=
  CaseRange.readTable "41-5A:61 C0-D6:E0 D8-DE:F8 100-12E/2:101 130:69 132-136/2:133 139-147/2:13A
    14A-176/2:14B 178:FF 179-17D/2:17A 181:253 182-184/2:183 186:254 187:188
    189-18A:256 18B:18C 18E:1DD 18F:259 190:25B 191:192 193:260 194:263 196:269 197:268
    198:199 19C:26F 19D:272 19F:275 1A0-1A4/2:1A1 1A6:280 1A7:1A8 1A9:283 1AC:1AD
    1AE:288 1AF:1B0 1B1-1B2:28A 1B3-1B5/2:1B4 1B7:292 1B8:1B9 1BC:1BD 1C4:1C6 1C5:1C6
    1C7:1C9 1C8:1C9 1CA:1CC 1CB-1DB/2:1CC 1DE-1EE/2:1DF 1F1:1F3 1F2-1F4/2:1F3 1F6:195
    1F7:1BF 1F8-21E/2:1F9 220:19E 222-232/2:223 23A:2C65 23B:23C 23D:19A 23E:2C66
    241:242 243:180 244:289 245:28C 246-24E/2:247 370-372/2:371 376:377 37F:3F3 386:3AC
    388-38A:3AD 38C:3CC 38E-38F:3CD 391-3A1:3B1 3A3-3AB:3C3 3CF:3D7 3D8-3EE/2:3D9
    3F4:3B8 3F7:3F8 3F9:3F2 3FA:3FB 3FD-3FF:37B 400-40F:450 410-42F:430 460-480/2:461
    48A-4BE/2:48B 4C0:4CF 4C1-4CD/2:4C2 4D0-52E/2:4D1 531-556:561 10A0-10C5:2D00
    10C7:2D27 10CD:2D2D 13A0-13EF:AB70 13F0-13F5:13F8 1C90-1CBA:10D0 1CBD-1CBF:10FD
    1E00-1E94/2:1E01 1E9E:DF 1EA0-1EFE/2:1EA1 1F08-1F0F:1F00 1F18-1F1D:1F10
    1F28-1F2F:1F20 1F38-1F3F:1F30 1F48-1F4D:1F40 1F59-1F5F/2:1F51 1F68-1F6F:1F60
    1F88-1F8F:1F80 1F98-1F9F:1F90 1FA8-1FAF:1FA0 1FB8-1FB9:1FB0 1FBA-1FBB:1F70
    1FBC:1FB3 1FC8-1FCB:1F72 1FCC:1FC3 1FD8-1FD9:1FD0 1FDA-1FDB:1F76 1FE8-1FE9:1FE0
    1FEA-1FEB:1F7A 1FEC:1FE5 1FF8-1FF9:1F78 1FFA-1FFB:1F7C 1FFC:1FF3 2126:3C9 212A:6B
    212B:E5 2132:214E 2160-216F:2170 2183:2184 24B6-24CF:24D0 2C00-2C2F:2C30 2C60:2C61
    2C62:26B 2C63:1D7D 2C64:27D 2C67-2C6B/2:2C68 2C6D:251 2C6E:271 2C6F:250 2C70:252
    2C72:2C73 2C75:2C76 2C7E-2C7F:23F 2C80-2CE2/2:2C81 2CEB-2CED/2:2CEC 2CF2:2CF3
    A640-A66C/2:A641 A680-A69A/2:A681 A722-A72E/2:A723 A732-A76E/2:A733
    A779-A77B/2:A77A A77D:1D79 A77E-A786/2:A77F A78B:A78C A78D:265 A790-A792/2:A791
    A796-A7A8/2:A797 A7AA:266 A7AB:25C A7AC:261 A7AD:26C A7AE:26A A7B0:29E A7B1:287
    A7B2:29D A7B3:AB53 A7B4-A7C2/2:A7B5 A7C4:A794 A7C5:282 A7C6:1D8E A7C7-A7C9/2:A7C8
    A7D0:A7D1 A7D6-A7D8/2:A7D7 A7F5:A7F6 FF21-FF3A:FF41 10400-10427:10428
    104B0-104D3:104D8 10570-1057A:10597 1057C-1058A:105A3 1058C-10592:105B3
    10594-10595:105BB 10C80-10CB2:10CC0 118A0-118BF:118C0 16E40-16E5F:16E60
    1E900-1E921:1E922"

/-- The capital form of a character. -/
def upperChar (c : Char) : Char :=
  if c.toNat < 0x80 then c.toUpper else CaseRange.apply upperRows c

/-- The small form of a character. -/
def lowerChar (c : Char) : Char :=
  if c.toNat < 0x80 then c.toLower else CaseRange.apply lowerRows c

/-- The classes of more than two characters that differ only in case. -/
def largeCaseClasses : List (List Nat) :=
  [[0x4B, 0x6B, 0x212A],
   [0x53, 0x73, 0x17F],
   [0xB5, 0x39C, 0x3BC],
   [0xC5, 0xE5, 0x212B],
   [0x1C4, 0x1C5, 0x1C6],
   [0x1C7, 0x1C8, 0x1C9],
   [0x1CA, 0x1CB, 0x1CC],
   [0x1F1, 0x1F2, 0x1F3],
   [0x345, 0x399, 0x3B9, 0x1FBE],
   [0x392, 0x3B2, 0x3D0],
   [0x395, 0x3B5, 0x3F5],
   [0x398, 0x3B8, 0x3D1, 0x3F4],
   [0x39A, 0x3BA, 0x3F0],
   [0x3A0, 0x3C0, 0x3D6],
   [0x3A1, 0x3C1, 0x3F1],
   [0x3A3, 0x3C2, 0x3C3],
   [0x3A6, 0x3C6, 0x3D5],
   [0x3A9, 0x3C9, 0x2126],
   [0x412, 0x432, 0x1C80],
   [0x414, 0x434, 0x1C81],
   [0x41E, 0x43E, 0x1C82],
   [0x421, 0x441, 0x1C83],
   [0x422, 0x442, 0x1C84, 0x1C85],
   [0x42A, 0x44A, 0x1C86],
   [0x462, 0x463, 0x1C87],
   [0x1C88, 0xA64A, 0xA64B],
   [0x1E60, 0x1E61, 0x1E9B]]

/-- All characters that differ from `c` only in case, `c` among them. -/
def caseClass (c : Char) : List Char :=
  match largeCaseClasses.find? (·.contains c.toNat) with
  | some cs => cs.map Char.ofNat
  | none =>
    let u := upperChar c
    let l := lowerChar c
    if u ≠ c then [c, u] else if l ≠ c then [c, l] else [c]

/-- A byte string with every letter in its capital form; stray bytes become the
replacement character. -/
def Bytes.upper (b : Bytes) : Bytes :=
  b.chars.flatMap fun c => Bytes.ofChar (upperChar c)

/-- A byte string with every letter in its small form; stray bytes become the
replacement character. -/
def Bytes.lower (b : Bytes) : Bytes :=
  b.chars.flatMap fun c => Bytes.ofChar (lowerChar c)

/-- A byte string without the white space at its ends. -/
def Bytes.trim (b : Bytes) : Bytes :=
  let blank (g : Glyph) : Bool := match g with
    | .char c => isBlank c
    | .stray _ => false
  Bytes.ofGlyphs (((b.glyphs.dropWhile blank).reverse.dropWhile blank).reverse)

end Stencil
