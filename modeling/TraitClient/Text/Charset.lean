import TraitClient.Text.CodeRanges
import TraitClient.Text.Utf16

/-!
# Character encodings

Encodings by the labels that content types give them.  All but UTF-8 and UTF-16 have one byte a
character: the lower half is ASCII, and a table says what the upper half is.
-/
namespace TraitClient.Text

/-- A table of 128 code points, as ranges in the order of the bytes from 128 on. -/
structure ByteTable where
  labels : List String
  ranges : List (Nat × Nat)

namespace ByteTable

def ofText (labels ranges : String) : ByteTable := ⟨(words labels).map String.ofList, (CodeRanges.ofText ranges).ranges⟩

def codeAt : List (Nat × Nat) → Nat → Nat
  | [], _ => replacement.toNat
  | (first, last) :: rest, n =>
    if n ≤ last - first then first + n else codeAt rest (n - (last - first) - 1)

def char (t : ByteTable) (b : UInt8) : Char :=
  if b.toNat < 128 then Char.ofNat b.toNat else Char.ofNat (codeAt t.ranges (b.toNat - 128))

end ByteTable

def byteTables : List ByteTable :=
  [ByteTable.ofText
      "866 cp866 csibm866 ibm866"
      "410-43F 2591-2593 2502 2524 2561-2562 2556 2555 2563 2551 2557 255D 255C 255B 2510 2514
        2534 252C 251C 2500 253C 255E-255F 255A 2554 2569 2566 2560 2550 256C 2567-2568 2564-2565
        2559 2558 2552-2553 256B 256A 2518 250C 2588 2584 258C 2590 2580 440-44F 401 451 404 454
        407 457 40E 45E B0 2219 B7 221A 2116 A4 25A0 A0",
    ByteTable.ofText
      "csisolatin2 iso-8859-2 iso-ir-101 iso8859-2 iso88592 iso_8859-2 iso_8859-2:1987 l2 latin2"
      "80-A0 104 2D8 141 A4 13D 15A A7-A8 160 15E 164 179 AD 17D 17B B0 105 2DB 142 B4 13E 15B
        2C7 B8 161 15F 165 17A 2DD 17E 17C 154 C1-C2 102 C4 139 106 C7 10C C9 118 CB 11A CD-CE 10E
        110 143 147 D3-D4 150 D6-D7 158 16E DA 170 DC-DD 162 DF 155 E1-E2 103 E4 13A 107 E7 10D E9
        119 EB 11B ED-EE 10F 111 144 148 F3-F4 151 F6-F7 159 16F FA 171 FC-FD 163 2D9",
    ByteTable.ofText
      "csisolatin3 iso-8859-3 iso-ir-109 iso8859-3 iso88593 iso_8859-3 iso_8859-3:1988 l3 latin3"
      "80-A0 126 2D8 A3-A4 FFFD 124 A7-A8 130 15E 11E 134 AD FFFD 17B B0 127 B2-B5 125 B7-B8 131
        15F 11F 135 BD FFFD 17C C0-C2 FFFD C4 10A 108 C7-CF FFFD D1-D4 120 D6-D7 11C D9-DC 16C 15C
        DF-E2 FFFD E4 10B 109 E7-EF FFFD F1-F4 121 F6-F7 11D F9-FC 16D 15D 2D9",
    ByteTable.ofText
      "csisolatin4 iso-8859-4 iso-ir-110 iso8859-4 iso88594 iso_8859-4 iso_8859-4:1988 l4 latin4"
      "80-A0 104 138 156 A4 128 13B A7-A8 160 112 122 166 AD 17D AF-B0 105 2DB 157 B4 129 13C 2C7
        B8 161 113 123 167 14A 17E 14B 100 C1-C6 12E 10C C9 118 CB 116 CD-CE 12A 110 145 14C 136
        D4-D8 172 DA-DC 168 16A DF 101 E1-E6 12F 10D E9 119 EB 117 ED-EE 12B 111 146 14D 137 F4-F8
        173 FA-FC 169 16B 2D9",
    ByteTable.ofText
      "csisolatincyrillic cyrillic iso-8859-5 iso-ir-144 iso8859-5 iso88595 iso_8859-5
        iso_8859-5:1988"
      "80-A0 401-40C AD 40E-44F 2116 451-45C A7 45E-45F",
    ByteTable.ofText
      "arabic asmo-708 csiso88596e csiso88596i csisolatinarabic ecma-114 iso-8859-6 iso-8859-6-e
        iso-8859-6-i iso-ir-127 iso8859-6 iso88596 iso_8859-6 iso_8859-6:1987"
      "80-A0 FFFD FFFD FFFD A4 FFFD FFFD FFFD FFFD FFFD FFFD FFFD 60C AD FFFD FFFD FFFD FFFD FFFD
        FFFD FFFD FFFD FFFD FFFD FFFD FFFD FFFD 61B FFFD FFFD FFFD 61F FFFD 621-63A FFFD FFFD FFFD
        FFFD FFFD 640-652 FFFD FFFD FFFD FFFD FFFD FFFD FFFD FFFD FFFD FFFD FFFD FFFD FFFD",
    ByteTable.ofText
      "csisolatingreek ecma-118 elot_928 greek greek8 iso-8859-7 iso-ir-126 iso8859-7 iso88597
        iso_8859-7 iso_8859-7:1987 sun_eu_greek"
      "80-A0 2018-2019 A3 20AC 20AF A6-A9 37A AB-AD FFFD 2015 B0-B3 384-386 B7 388-38A BB 38C BD
        38E-3A1 FFFD 3A3-3CE FFFD",
    ByteTable.ofText
      "csiso88598e csisolatinhebrew hebrew iso-8859-8 iso-8859-8-e iso-ir-138 iso8859-8 iso88598
        iso_8859-8 iso_8859-8:1988 visual csiso88598i iso-8859-8-i logical"
      "80-A0 FFFD A2-A9 D7 AB-B9 F7 BB-BE FFFD FFFD FFFD FFFD FFFD FFFD FFFD FFFD FFFD FFFD FFFD
        FFFD FFFD FFFD FFFD FFFD FFFD FFFD FFFD FFFD FFFD FFFD FFFD FFFD FFFD FFFD FFFD FFFD FFFD
        FFFD FFFD FFFD 2017 5D0-5EA FFFD FFFD 200E-200F FFFD",
    ByteTable.ofText
      "csisolatin6 iso-8859-10 iso-ir-157 iso8859-10 iso885910 l6 latin6"
      "80-A0 104 112 122 12A 128 136 A7 13B 110 160 166 17D AD 16A 14A B0 105 113 123 12B 129 137
        B7 13C 111 161 167 17E 2015 16B 14B 100 C1-C6 12E 10C C9 118 CB 116 CD-D0 145 14C D3-D6
        168 D8 172 DA-DF 101 E1-E6 12F 10D E9 119 EB 117 ED-F0 146 14D F3-F6 169 F8 173 FA-FE 138",
    ByteTable.ofText
      "iso-8859-13 iso8859-13 iso885913"
      "80-A0 201D A2-A4 201E A6-A7 D8 A9 156 AB-AE C6 B0-B3 201C B5-B7 F8 B9 157 BB-BE E6 104 12E
        100 106 C4-C5 118 112 10C C9 179 116 122 136 12A 13B 160 143 145 D3 14C D5-D7 172 141 15A
        16A DC 17B 17D DF 105 12F 101 107 E4-E5 119 113 10D E9 17A 117 123 137 12B 13C 161 144 146
        F3 14D F5-F7 173 142 15B 16B FC 17C 17E 2019",
    ByteTable.ofText
      "iso-8859-14 iso8859-14 iso885914"
      "80-A0 1E02-1E03 A3 10A-10B 1E0A A7 1E80 A9 1E82 1E0B 1EF2 AD-AE 178 1E1E-1E1F 120-121
        1E40-1E41 B6 1E56 1E81 1E57 1E83 1E60 1EF3 1E84-1E85 1E61 C0-CF 174 D1-D6 1E6A D8-DD 176
        DF-EF 175 F1-F6 1E6B F8-FD 177 FF",
    ByteTable.ofText
      "csisolatin9 iso-8859-15 iso8859-15 iso885915 iso_8859-15 l9"
      "80-A3 20AC A5 160 A7 161 A9-B3 17D B5-B7 17E B9-BB 152-153 178 BF-FF",
    ByteTable.ofText
      "iso-8859-16"
      "80-A0 104-105 141 20AC 201E 160 A7 161 A9 218 AB 179 AD 17A-17B B0-B1 10C 142 17D 201D
        B6-B7 17E 10D 219 BB 152-153 178 17C C0-C2 102 C4 106 C6-CF 110 143 D2-D4 150 D6 15A 170
        D9-DC 118 21A DF-E2 103 E4 107 E6-EF 111 144 F2-F4 151 F6 15B 171 F9-FC 119 21B FF",
    ByteTable.ofText
      "cskoi8r koi koi8 koi8-r koi8_r"
      "2500 2502 250C 2510 2514 2518 251C 2524 252C 2534 253C 2580 2584 2588 258C 2590-2593 2320
        25A0 2219-221A 2248 2264-2265 A0 2321 B0 B2 B7 F7 2550-2552 451 2553-2561 401 2562-256C A9
        44E 430-431 446 434-435 444 433 445 438-43F 44F 440-443 436 432 44C 44B 437 448 44D 449
        447 44A 42E 410-411 426 414-415 424 413 425 418-41F 42F 420-423 416 412 42C 42B 417 428
        42D 429 427 42A",
    ByteTable.ofText
      "koi8-ru koi8-u"
      "2500 2502 250C 2510 2514 2518 251C 2524 252C 2534 253C 2580 2584 2588 258C 2590-2593 2320
        25A0 2219-221A 2248 2264-2265 A0 2321 B0 B2 B7 F7 2550-2552 451 454 2554 456-457 2557-255B
        491 45E 255E-2561 401 404 2563 406-407 2566-256A 490 40E A9 44E 430-431 446 434-435 444
        433 445 438-43F 44F 440-443 436 432 44C 44B 437 448 44D 449 447 44A 42E 410-411 426
        414-415 424 413 425 418-41F 42F 420-423 416 412 42C 42B 417 428 42D 429 427 42A",
    ByteTable.ofText
      "csmacintosh mac macintosh x-mac-roman"
      "C4-C5 C7 C9 D1 D6 DC E1 E0 E2 E4 E3 E5 E7 E9 E8 EA-EB ED EC EE-EF F1 F3 F2 F4 F6 F5 FA F9
        FB-FC 2020 B0 A2-A3 A7 2022 B6 DF AE A9 2122 B4 A8 2260 C6 D8 221E B1 2264-2265 A5 B5 2202
        2211 220F 3C0 222B AA BA 3A9 E6 F8 BF A1 AC 221A 192 2248 2206 AB BB 2026 A0 C0 C3 D5
        152-153 2013-2014 201C-201D 2018-2019 F7 25CA FF 178 2044 20AC 2039-203A FB01-FB02 2021 B7
        201A 201E 2030 C2 CA C1 CB C8 CD-CF CC D3-D4 F8FF D2 DA-DB D9 131 2C6 2DC AF 2D8-2DA B8
        2DD 2DB 2C7",
    ByteTable.ofText
      "dos-874 iso-8859-11 iso8859-11 iso885911 tis-620 windows-874"
      "20AC 81-84 2026 86-90 2018-2019 201C-201D 2022 2013-2014 98-A0 E01-E3A FFFD FFFD FFFD FFFD
        E3F-E5B FFFD FFFD FFFD FFFD",
    ByteTable.ofText
      "cp1250 windows-1250 x-cp1250"
      "20AC 81 201A 83 201E 2026 2020-2021 88 2030 160 2039 15A 164 17D 179 90 2018-2019
        201C-201D 2022 2013-2014 98 2122 161 203A 15B 165 17E 17A A0 2C7 2D8 141 A4 104 A6-A9 15E
        AB-AE 17B B0-B1 2DB 142 B4-B8 105 15F BB 13D 2DD 13E 17C 154 C1-C2 102 C4 139 106 C7 10C
        C9 118 CB 11A CD-CE 10E 110 143 147 D3-D4 150 D6-D7 158 16E DA 170 DC-DD 162 DF 155 E1-E2
        103 E4 13A 107 E7 10D E9 119 EB 11B ED-EE 10F 111 144 148 F3-F4 151 F6-F7 159 16F FA 171
        FC-FD 163 2D9",
    ByteTable.ofText
      "cp1251 windows-1251 x-cp1251"
      "402-403 201A 453 201E 2026 2020-2021 20AC 2030 409 2039 40A 40C 40B 40F 452 2018-2019
        201C-201D 2022 2013-2014 98 2122 459 203A 45A 45C 45B 45F A0 40E 45E 408 A4 490 A6-A7 401
        A9 404 AB-AE 407 B0-B1 406 456 491 B5-B7 451 2116 454 BB 458 405 455 457 410-44F",
    ByteTable.ofText
      "ansi_x3.4-1968 ascii cp1252 cp819 csisolatin1 ibm819 iso-8859-1 iso-ir-100 iso8859-1
        iso88591 iso_8859-1 iso_8859-1:1987 l1 latin1 us-ascii windows-1252 x-cp1252"
      "20AC 81 201A 192 201E 2026 2020-2021 2C6 2030 160 2039 152 8D 17D 8F-90 2018-2019
        201C-201D 2022 2013-2014 2DC 2122 161 203A 153 9D 17E 178 A0-FF",
    ByteTable.ofText
      "cp1253 windows-1253 x-cp1253"
      "20AC 81 201A 192 201E 2026 2020-2021 88 2030 8A 2039 8C-90 2018-2019 201C-201D 2022
        2013-2014 98 2122 9A 203A 9C-A0 385-386 A3-A9 FFFD AB-AE 2015 B0-B3 384 B5-B7 388-38A BB
        38C BD 38E-3A1 FFFD 3A3-3CE FFFD",
    ByteTable.ofText
      "cp1254 csisolatin5 iso-8859-9 iso-ir-148 iso8859-9 iso88599 iso_8859-9 iso_8859-9:1989 l5
        latin5 windows-1254 x-cp1254"
      "20AC 81 201A 192 201E 2026 2020-2021 2C6 2030 160 2039 152 8D-90 2018-2019 201C-201D 2022
        2013-2014 2DC 2122 161 203A 153 9D-9E 178 A0-CF 11E D1-DC 130 15E DF-EF 11F F1-FC 131 15F
        FF",
    ByteTable.ofText
      "cp1255 windows-1255 x-cp1255"
      "20AC 81 201A 192 201E 2026 2020-2021 2C6 2030 8A 2039 8C-90 2018-2019 201C-201D 2022
        2013-2014 2DC 2122 9A 203A 9C-A3 20AA A5-A9 D7 AB-B9 F7 BB-BF 5B0-5C3 5F0-5F4 FFFD FFFD
        FFFD FFFD FFFD FFFD FFFD 5D0-5EA FFFD FFFD 200E-200F FFFD",
    ByteTable.ofText
      "cp1256 windows-1256 x-cp1256"
      "20AC 67E 201A 192 201E 2026 2020-2021 2C6 2030 679 2039 152 686 698 688 6AF 2018-2019
        201C-201D 2022 2013-2014 6A9 2122 691 203A 153 200C-200D 6BA A0 60C A2-A9 6BE AB-B9 61B
        BB-BE 61F 6C1 621-636 D7 637-63A 640-643 E0 644 E2 645-648 E7-EB 649-64A EE-EF 64B-64E F4
        64F-650 F7 651 F9 652 FB-FC 200E-200F 6D2",
    ByteTable.ofText
      "cp1257 windows-1257 x-cp1257"
      "20AC 81 201A 83 201E 2026 2020-2021 88 2030 8A 2039 8C A8 2C7 B8 90 2018-2019 201C-201D
        2022 2013-2014 98 2122 9A 203A 9C AF 2DB 9F-A0 FFFD A2-A4 FFFD A6-A7 D8 A9 156 AB-AE C6
        B0-B7 F8 B9 157 BB-BE E6 104 12E 100 106 C4-C5 118 112 10C C9 179 116 122 136 12A 13B 160
        143 145 D3 14C D5-D7 172 141 15A 16A DC 17B 17D DF 105 12F 101 107 E4-E5 119 113 10D E9
        17A 117 123 137 12B 13C 161 144 146 F3 14D F5-F7 173 142 15B 16B FC 17C 17E 2D9",
    ByteTable.ofText
      "cp1258 windows-1258 x-cp1258"
      "20AC 81 201A 192 201E 2026 2020-2021 2C6 2030 8A 2039 152 8D-90 2018-2019 201C-201D 2022
        2013-2014 2DC 2122 9A 203A 153 9D-9E 178 A0-C2 102 C4-CB 300 CD-CF 110 D1 309 D3-D4 1A0
        D6-DC 1AF 303 DF-E2 103 E4-EB 301 ED-EF 111 F1 323 F3-F4 1A1 F6-FC 1B0 20AB FF",
    ByteTable.ofText
      "x-mac-cyrillic x-mac-ukrainian"
      "410-42F 2020 B0 490 A3 A7 2022 B6 406 AE A9 2122 402 452 2260 403 453 221E B1 2264-2265
        456 B5 491 408 404 454 407 457 409 459 40A 45A 458 405 AC 221A 192 2248 2206 AB BB 2026 A0
        40B 45B 40C 45C 455 2013-2014 201C-201D 2018-2019 F7 201E 40E 45E 40F 45F 2116 401 451 44F
        430-44E 20AC",
    ByteTable.ofText "x-user-defined" "F780-F7FF"]

inductive Charset
  | utf8
  | utf16 (order : ByteOrder)
  | bytes (table : ByteTable)
  /-- Encodings that are not decoded for safety. -/
  | refused

namespace Charset

def utf8Labels : List String :=
  ["unicode-1-1-utf-8", "unicode11utf8", "unicode20utf8", "utf-8", "utf8", "x-unicode20utf8"]

def utf16LittleLabels : List String :=
  ["csunicode", "iso-10646-ucs-2", "ucs-2", "unicode", "unicodefeff", "utf-16", "utf-16le"]

def utf16BigLabels : List String := ["unicodefffe", "utf-16be"]

def refusedLabels : List String :=
  ["csiso2022kr", "hz-gb-2312", "iso-2022-cn", "iso-2022-cn-ext", "iso-2022-kr", "replacement"]

def isLabelBlank (c : Char) : Bool :=
  c == ' ' || c == '\t' || c == '\n' || c == '\r' || c.toNat = 12

def plainLabel (label : String) : String :=
  let s := label.toList.dropWhile isLabelBlank
  String.ofList ((s.reverse.dropWhile isLabelBlank).reverse.map Char.toLower)

def ofLabel? (label : String) : Option Charset :=
  let l := plainLabel label
  if utf8Labels.contains l then some .utf8
  else if utf16LittleLabels.contains l then some (.utf16 .little)
  else if utf16BigLabels.contains l then some (.utf16 .big)
  else if refusedLabels.contains l then some .refused
  else (byteTables.find? (·.labels.contains l)).map .bytes

/-- The encoding that a byte order mark stands for, and the bytes behind the mark. -/
def ofMark? : List UInt8 → Option (Charset × List UInt8)
  | 0xEF :: 0xBB :: 0xBF :: rest => some (.utf8, rest)
  | 0xFF :: 0xFE :: rest => some (.utf16 .little, rest)
  | 0xFE :: 0xFF :: rest => some (.utf16 .big, rest)
  | _ => none

def decodeAll (c : Charset) (bytes : List UInt8) : List Char :=
  match c with
  | .utf8 => decodeUtf8 bytes
  | .utf16 order => decodeUtf16 order bytes
  | .bytes table => bytes.map table.char
  | .refused => if bytes.isEmpty then [] else [replacement]

/-- Decodes a text; a byte order mark goes before the encoding that was announced. -/
def decode (c : Charset) (bytes : List UInt8) : String :=
  String.ofList <| match ofMark? bytes with
    | some (marked, rest) => marked.decodeAll rest
    | none => c.decodeAll bytes

end Charset
end TraitClient.Text
