import FipsIpc.Sf2b.Agreement

/-!
Contract: the address writers of `lib/ip_to_str.c`.

Owns: the lookup tables, the loops that copy their characters to a buffer behind
an 8-bit offset, the grammar of eight hexadecimal groups, and that the printed
addresses have the returned length, parse back and are distinct.

The writers leave no terminator, so the string they write is the part of the
buffer in front of the returned offset.

Does not own: `ipv6_to_str_fancy`, which nothing calls.
-/

set_option autoImplicit false

namespace FipsIpc.IpToStr

open FipsIpc.Sf2b FipsIpc.UdpServer

/-! ### The writers -/

def decTable : List (List UInt8) := List.map ascii
  ["0", "1", "2", "3", "4", "5", "6", "7", "8", "9", "10", "11", "12", "13", "14", "15", "16",
    "17", "18", "19", "20", "21", "22", "23", "24", "25", "26", "27", "28", "29", "30", "31",
    "32", "33", "34", "35", "36", "37", "38", "39", "40", "41", "42", "43", "44", "45", "46",
    "47", "48", "49", "50", "51", "52", "53", "54", "55", "56", "57", "58", "59", "60", "61",
    "62", "63", "64", "65", "66", "67", "68", "69", "70", "71", "72", "73", "74", "75", "76",
    "77", "78", "79", "80", "81", "82", "83", "84", "85", "86", "87", "88", "89", "90", "91",
    "92", "93", "94", "95", "96", "97", "98", "99", "100", "101", "102", "103", "104", "105",
    "106", "107", "108", "109", "110", "111", "112", "113", "114", "115", "116", "117", "118",
    "119", "120", "121", "122", "123", "124", "125", "126", "127", "128", "129", "130", "131",
    "132", "133", "134", "135", "136", "137", "138", "139", "140", "141", "142", "143", "144",
    "145", "146", "147", "148", "149", "150", "151", "152", "153", "154", "155", "156", "157",
    "158", "159", "160", "161", "162", "163", "164", "165", "166", "167", "168", "169", "170",
    "171", "172", "173", "174", "175", "176", "177", "178", "179", "180", "181", "182", "183",
    "184", "185", "186", "187", "188", "189", "190", "191", "192", "193", "194", "195", "196",
    "197", "198", "199", "200", "201", "202", "203", "204", "205", "206", "207", "208", "209",
    "210", "211", "212", "213", "214", "215", "216", "217", "218", "219", "220", "221", "222",
    "223", "224", "225", "226", "227", "228", "229", "230", "231", "232", "233", "234", "235",
    "236", "237", "238", "239", "240", "241", "242", "243", "244", "245", "246", "247", "248",
    "249", "250", "251", "252", "253", "254", "255"]

def hexTable : List (List UInt8) := List.map ascii
  ["00", "01", "02", "03", "04", "05", "06", "07", "08", "09", "0a", "0b", "0c", "0d", "0e",
    "0f", "10", "11", "12", "13", "14", "15", "16", "17", "18", "19", "1a", "1b", "1c", "1d",
    "1e", "1f", "20", "21", "22", "23", "24", "25", "26", "27", "28", "29", "2a", "2b", "2c",
    "2d", "2e", "2f", "30", "31", "32", "33", "34", "35", "36", "37", "38", "39", "3a", "3b",
    "3c", "3d", "3e", "3f", "40", "41", "42", "43", "44", "45", "46", "47", "48", "49", "4a",
    "4b", "4c", "4d", "4e", "4f", "50", "51", "52", "53", "54", "55", "56", "57", "58", "59",
    "5a", "5b", "5c", "5d", "5e", "5f", "60", "61", "62", "63", "64", "65", "66", "67", "68",
    "69", "6a", "6b", "6c", "6d", "6e", "6f", "70", "71", "72", "73", "74", "75", "76", "77",
    "78", "79", "7a", "7b", "7c", "7d", "7e", "7f", "80", "81", "82", "83", "84", "85", "86",
    "87", "88", "89", "8a", "8b", "8c", "8d", "8e", "8f", "90", "91", "92", "93", "94", "95",
    "96", "97", "98", "99", "9a", "9b", "9c", "9d", "9e", "9f", "a0", "a1", "a2", "a3", "a4",
    "a5", "a6", "a7", "a8", "a9", "aa", "ab", "ac", "ad", "ae", "af", "b0", "b1", "b2", "b3",
    "b4", "b5", "b6", "b7", "b8", "b9", "ba", "bb", "bc", "bd", "be", "bf", "c0", "c1", "c2",
    "c3", "c4", "c5", "c6", "c7", "c8", "c9", "ca", "cb", "cc", "cd", "ce", "cf", "d0", "d1",
    "d2", "d3", "d4", "d5", "d6", "d7", "d8", "d9", "da", "db", "dc", "dd", "de", "df", "e0",
    "e1", "e2", "e3", "e4", "e5", "e6", "e7", "e8", "e9", "ea", "eb", "ec", "ed", "ee", "ef",
    "f0", "f1", "f2", "f3", "f4", "f5", "f6", "f7", "f8", "f9", "fa", "fb", "fc", "fd", "fe", "ff"]

/-- The entry of a table. -/
def lookup (table : List (List UInt8)) (c : UInt8) : List UInt8 := table.getD c.toNat []

/-- `dst` and `offset`. -/
structure Writer where
  dst : Nat → UInt8
  offset : UInt8

/-- `dst[offset++] = char`. -/
def Writer.put (writer : Writer) (char : UInt8) : Writer :=
  ⟨Function.update writer.dst writer.offset.toNat char, writer.offset + 1⟩

/-- The loop body of `ipv4_to_str`. -/
def putOctet (src : Vector UInt8 4) (writer : Writer) (i : Fin 4) : Writer :=
  let c := src[i]
  let str := lookup decTable c
  let writer :=
    if c > 99 then ((writer.put (str.getD 0 0)).put (str.getD 1 0)).put (str.getD 2 0)
    else if c > 9 then (writer.put (str.getD 0 0)).put (str.getD 1 0)
    else writer.put (str.getD 0 0)
  if i.val < 3 then writer.put dot else writer

/-- The returned length and the buffer. -/
def ipv4ToStr (src : Vector UInt8 4) (dst : Nat → UInt8) : UInt8 × (Nat → UInt8) :=
  let writer := (List.finRange 4).foldl (putOctet src) ⟨dst, 0⟩
  (writer.offset, writer.dst)

/-- The loop body of `ipv6_to_str`, for `i = 2 * group`. -/
def putGroup (src : Vector UInt8 16) (writer : Writer) (group : Fin 8) : Writer :=
  let str := lookup hexTable (src[2 * group.val])
  let writer := (writer.put (str.getD 0 0)).put (str.getD 1 0)
  let str := lookup hexTable (src[2 * group.val + 1])
  let writer := (writer.put (str.getD 0 0)).put (str.getD 1 0)
  if 2 * group.val < 14 then writer.put col else writer

/-- The returned length and the buffer. -/
def ipv6ToStr (src : Vector UInt8 16) (dst : Nat → UInt8) : UInt8 × (Nat → UInt8) :=
  let writer := (List.finRange 8).foldl (putGroup src) ⟨dst, 0⟩
  (writer.offset, writer.dst)

/-- The string in front of the returned offset. -/
def written (result : UInt8 × (Nat → UInt8)) : List UInt8 :=
  (List.range result.1.toNat).map result.2

/-- Eight groups of one to four hexadecimal digits, separated by colons. -/
def eightGroups (text : List UInt8) : Option (List UInt8) :=
  let parts := text.splitOn col
  if parts.length = 8 then (parts.mapM hexGroup).map List.flatten else none

/-! ### What the writers leave in the buffer -/

section Writing

variable {dst : Nat → UInt8} {text : List UInt8} {writer : Writer}

/-- The writer has put `text` at the start of the buffer `dst` and nothing
behind it. -/
structure Holds (dst : Nat → UInt8) (text : List UInt8) (writer : Writer) : Prop where
  offset : writer.offset.toNat = text.length
  chars : ∀ index char, text[index]? = some char → writer.dst index = char
  behind : ∀ index, text.length ≤ index → writer.dst index = dst index

theorem Holds.start (dst : Nat → UInt8) : Holds dst [] ⟨dst, 0⟩ :=
  ⟨rfl, by simp, fun _ _ => rfl⟩

theorem Holds.put (holds : Holds dst text writer) (char : UInt8) (room : text.length < 255) :
    Holds dst (text ++ [char]) (writer.put char) := by
  have offset := holds.offset
  refine ⟨?_, ?_, ?_⟩
  · simp only [Writer.put, UInt8.toNat_add, List.length_append, List.length_singleton]
    rw [offset]
    exact Nat.mod_eq_of_lt (Nat.succ_lt_succ room)
  · intro index other present
    rcases Nat.lt_trichotomy index text.length with before | rfl | after
    · rw [List.getElem?_append_left before] at present
      have different : index ≠ writer.offset.toNat := by omega
      simp only [Writer.put, Function.update_of_ne different]
      exact holds.chars index other present
    · rw [List.getElem?_concat_length] at present
      rw [← Option.some.inj present, ← offset]
      exact Function.update_self _ _ _
    · rw [List.getElem?_eq_none (by simp; omega)] at present
      cases present
  · intro index after
    rw [List.length_append, List.length_singleton] at after
    have different : index ≠ writer.offset.toNat := by omega
    simp only [Writer.put, Function.update_of_ne different]
    exact holds.behind index (by omega)

/-- A loop whose rounds put pieces of bounded length one behind the other. -/
theorem Holds.foldl {Index : Type} {body : Writer → Index → Writer} {piece : Index → List UInt8}
    {width : Nat} (short : ∀ index, (piece index).length ≤ width)
    (step : ∀ {text writer} index, Holds dst text writer → text.length + width ≤ 255 →
      Holds dst (text ++ piece index) (body writer index))
    (indices : List Index) (holds : Holds dst text writer)
    (room : text.length + indices.length * width ≤ 255) :
    Holds dst (text ++ indices.flatMap piece) (indices.foldl body writer) := by
  induction indices generalizing text writer with
  | nil => simpa using holds
  | cons index rest inductionHypothesis =>
      rw [List.length_cons, Nat.succ_mul] at room
      have put := step index holds (by omega)
      have pieceShort := short index
      have later := inductionHypothesis put (by rw [List.length_append]; omega)
      rwa [List.append_assoc] at later

theorem Holds.written (holds : Holds dst text writer) :
    written (writer.offset, writer.dst) = text := by
  apply List.ext_getElem?
  intro index
  unfold IpToStr.written
  rw [List.getElem?_map]
  rcases Nat.lt_or_ge index text.length with inside | outside
  · have present : text[index]? = some text[index] := List.getElem?_eq_getElem inside
    rw [List.getElem?_range (holds.offset ▸ inside), present]
    exact congrArg some (holds.chars index _ present)
  · rw [List.getElem?_eq_none outside, List.getElem?_eq_none (by simp [holds.offset, outside])]
    rfl

end Writing

/-! ### The tables -/

/-- A table in the order of the octets. -/
theorem lookup_of_eq_map {table : List (List UInt8)} {text : UInt8 → List UInt8}
    (entries : table = (List.range 256).map fun value => text (UInt8.ofNat value)) (c : UInt8) :
    lookup table c = text c := by
  have inside : c.toNat < (List.range 256).length := by
    rw [List.length_range]
    exact c.toNat_lt
  unfold lookup
  rw [entries, List.getD_eq_getElem _ _ (by rwa [List.length_map]), List.getElem_map,
    List.getElem_range, UInt8.ofNat_toNat]

theorem lookup_decTable (c : UInt8) : lookup decTable c = decMap c :=
  lookup_of_eq_map (by decide +kernel) c

theorem lookup_hexTable (c : UInt8) : lookup hexTable c = hexMap c :=
  lookup_of_eq_map (by decide +kernel) c

/-! ### The loops -/

section Loops

variable {dst : Nat → UInt8} {text : List UInt8} {writer : Writer}

/-- A number, and the dot behind all but the last. -/
def octetPiece (src : Vector UInt8 4) (i : Fin 4) : List UInt8 :=
  decMap src[i] ++ if i.val < 3 then [dot] else []

/-- A group, and the colon behind all but the last. -/
def groupPiece (src : Vector UInt8 16) (group : Fin 8) : List UInt8 :=
  hexMap src[2 * group.val] ++ hexMap src[2 * group.val + 1] ++
    if 2 * group.val < 14 then [col] else []

theorem length_octetPiece_le (src : Vector UInt8 4) (i : Fin 4) :
    (octetPiece src i).length ≤ 4 := by
  have number := length_decMap_le src[i]
  unfold octetPiece
  rw [List.length_append]
  split
  · exact Nat.add_le_add number (Nat.le_refl 1)
  · exact Nat.le_succ_of_le number

theorem length_groupPiece_le (src : Vector UInt8 16) (group : Fin 8) :
    (groupPiece src group).length ≤ 5 := by
  unfold groupPiece
  split <;> simp [hexMap]

theorem Holds.put_put (holds : Holds dst text writer) (first second : UInt8)
    (room : text.length + 2 ≤ 255) :
    Holds dst (text ++ [first, second]) ((writer.put first).put second) := by
  have one := holds.put first (by omega)
  have two := one.put second (by rw [List.length_append, List.length_singleton]; omega)
  rwa [List.append_assoc] at two

/-- The branches copy all digits of the table entry. -/
theorem Holds.putNumber (c : UInt8) (holds : Holds dst text writer)
    (room : text.length + 3 ≤ 255) :
    Holds dst (text ++ decMap c)
      (if c > 99 then
        ((writer.put ((decMap c).getD 0 0)).put ((decMap c).getD 1 0)).put ((decMap c).getD 2 0)
      else if c > 9 then (writer.put ((decMap c).getD 0 0)).put ((decMap c).getD 1 0)
      else writer.put ((decMap c).getD 0 0)) := by
  have nine : c > 9 ↔ 9 < c.toNat := UInt8.lt_iff_toNat_lt
  have ninetyNine : c > 99 ↔ 99 < c.toNat := UInt8.lt_iff_toNat_lt
  unfold decMap
  simp only [nine, ninetyNine]
  by_cases three : 99 < c.toNat
  · simp only [if_pos three]
    have two := holds.put_put (digit (c.toNat / 100)) (digit (c.toNat / 10 % 10)) (by omega)
    have last := two.put (digit (c.toNat % 10)) (by rw [List.length_append]; simp; omega)
    rwa [List.append_assoc] at last
  · simp only [if_neg three]
    by_cases two : 9 < c.toNat
    · simp only [if_pos two]
      exact holds.put_put _ _ (by omega)
    · simp only [if_neg two]
      exact holds.put _ (by omega)

theorem Holds.putOctet (src : Vector UInt8 4) (i : Fin 4) (holds : Holds dst text writer)
    (room : text.length + 4 ≤ 255) :
    Holds dst (text ++ octetPiece src i) (putOctet src writer i) := by
  have number := holds.putNumber src[i] (by omega)
  have digits := length_decMap_le src[i]
  unfold IpToStr.putOctet octetPiece
  simp only [lookup_decTable]
  rw [← List.append_assoc]
  split
  · exact number.put dot (by rw [List.length_append]; omega)
  · rwa [List.append_nil]

theorem Holds.putGroup (src : Vector UInt8 16) (group : Fin 8) (holds : Holds dst text writer)
    (room : text.length + 5 ≤ 255) :
    Holds dst (text ++ groupPiece src group) (putGroup src writer group) := by
  have high := holds.put_put (hexDigit (src[2 * group.val].toNat / 16))
    (hexDigit (src[2 * group.val].toNat % 16)) (by omega)
  have low := high.put_put (hexDigit (src[2 * group.val + 1].toNat / 16))
    (hexDigit (src[2 * group.val + 1].toNat % 16)) (by rw [List.length_append]; simp; omega)
  unfold IpToStr.putGroup groupPiece
  simp only [lookup_hexTable]
  rw [← List.append_assoc, ← List.append_assoc]
  split
  · exact low.put col (by rw [List.length_append, List.length_append]; simp; omega)
  · rwa [List.append_nil]

/-- What `ipv4_to_str` writes. -/
theorem holds_ipv4ToStr (src : Vector UInt8 4) (dst : Nat → UInt8) :
    Holds dst (UdpServer.ipv4ToStr src.toList) ⟨(ipv4ToStr src dst).2, (ipv4ToStr src dst).1⟩ := by
  have holds := (Holds.start dst).foldl (length_octetPiece_le src)
    (fun i holds room => holds.putOctet src i room) (List.finRange 4) (by simp)
  have pieces : [] ++ (List.finRange 4).flatMap (octetPiece src) =
      UdpServer.ipv4ToStr src.toList := by
    rcases src with ⟨⟨bytes⟩, size⟩
    match bytes, size with
    | [a, b, c, d], _ =>
        simp [octetPiece, UdpServer.ipv4ToStr, List.intercalate, List.finRange_succ]
  rwa [pieces] at holds

/-- What `ipv6_to_str` writes. -/
theorem holds_ipv6ToStr (src : Vector UInt8 16) (dst : Nat → UInt8) :
    Holds dst (UdpServer.ipv6ToStr src.toList) ⟨(ipv6ToStr src dst).2, (ipv6ToStr src dst).1⟩ := by
  have holds := (Holds.start dst).foldl (length_groupPiece_le src)
    (fun group holds room => holds.putGroup src group room) (List.finRange 8) (by simp)
  have pieces : [] ++ (List.finRange 8).flatMap (groupPiece src) =
      UdpServer.ipv6ToStr src.toList := by
    rcases src with ⟨⟨bytes⟩, size⟩
    match bytes, size with
    | [_, _, _, _, _, _, _, _, _, _, _, _, _, _, _, _], _ => rfl
  rwa [pieces] at holds

end Loops

/-! ### Parsing -/

theorem hexValue_hexDigit : ∀ value < 16, hexValue (hexDigit value) = some value := by decide

/-- A printed group gives back its two bytes. -/
theorem hexGroup_hexMap (high low : UInt8) :
    hexGroup (hexMap high ++ hexMap low) = some [high, low] := by
  have highBelow := high.toNat_lt
  have lowBelow := low.toNat_lt
  have digits : (hexMap high ++ hexMap low).mapM hexValue =
      some [high.toNat / 16, high.toNat % 16, low.toNat / 16, low.toNat % 16] := by
    simp [hexMap, hexValue_hexDigit (high.toNat / 16) (by omega),
      hexValue_hexDigit (high.toNat % 16) (by omega),
      hexValue_hexDigit (low.toNat / 16) (by omega), hexValue_hexDigit (low.toNat % 16) (by omega)]
  have value : 16 * (16 * (16 * (16 * 0 + high.toNat / 16) + high.toNat % 16) +
      low.toNat / 16) + low.toNat % 16 = 256 * high.toNat + low.toNat := by
    omega
  have upper : UInt8.ofNat ((256 * high.toNat + low.toNat) / 256) = high := by
    have quotient : (256 * high.toNat + low.toNat) / 256 = high.toNat := by omega
    rw [quotient, UInt8.ofNat_toNat]
  have lower : UInt8.ofNat (256 * high.toNat + low.toNat) = low := by
    apply UInt8.toNat.inj
    rw [UInt8.toNat_ofNat']
    omega
  unfold hexGroup
  rw [if_pos ⟨List.cons_ne_nil _ _, Nat.le_refl 4⟩, digits]
  simp only [Option.map_some, List.foldl_cons, List.foldl_nil, value, upper, lower]

/-- The printed groups give back the address. -/
theorem mapM_hexGroup : ∀ bytes : List UInt8, bytes.length % 2 = 0 →
    ((hexGroups bytes).mapM hexGroup).map List.flatten = some bytes
  | [], _ => rfl
  | [_], odd => by simp at odd
  | high :: low :: rest, even => by
      have later := mapM_hexGroup rest (by simp only [List.length_cons] at even; omega)
      rcases Option.map_eq_some_iff.mp later with ⟨groups, converted, rfl⟩
      simp [hexGroups, hexGroup_hexMap, converted]

theorem eightGroups_ipv6ToStr {bytes : List UInt8} (sixteen : bytes.length = 16) :
    eightGroups (UdpServer.ipv6ToStr bytes) = some bytes := by
  have eight : (hexGroups bytes).length = 8 := by
    match bytes, sixteen with
    | [_, _, _, _, _, _, _, _, _, _, _, _, _, _, _, _], _ => rfl
  have parts : (UdpServer.ipv6ToStr bytes).splitOn col = hexGroups bytes := by
    apply List.splitOn_intercalate
    · intro part isPart inside
      rcases mem_hexGroups isPart with ⟨high, low, rfl⟩
      rcases List.mem_append.mp inside with first | second
      · exact col_notMem_hexChars (hexMap_hexChars high col first)
      · exact col_notMem_hexChars (hexMap_hexChars low col second)
    · exact List.ne_nil_of_length_pos (by omega)
  unfold eightGroups
  dsimp only
  rw [parts, if_pos eight]
  exact mapM_hexGroup bytes (by rw [sixteen])

/-- A four-byte address as part of an IPv4-mapped one. -/
theorem exists_mapped (src : Vector UInt8 4) : ∃ addr : In6Addr, v4Part addr = src.toList := by
  refine ⟨⟨⟨List.replicate 12 0 ++ src.toList⟩, by simp⟩, ?_⟩
  simp [v4Part]

theorem seven_le_length (src : Vector UInt8 4) :
    7 ≤ (UdpServer.ipv4ToStr src.toList).length := by
  rcases src with ⟨⟨bytes⟩, size⟩
  match bytes, size with
  | [a, b, c, d], _ =>
      have digits := And.intro (decMap_digits a).1 (And.intro (decMap_digits b).1
        (And.intro (decMap_digits c).1 (decMap_digits d).1))
      simp [UdpServer.ipv4ToStr, List.intercalate]
      omega

/-! ### Printed addresses -/

/-- The string in front of the returned offset parses back to the address, and
nothing is written behind it. -/
structure PrintsBack (parse : List UInt8 → Option (List UInt8)) (src : List UInt8)
    (dst : Nat → UInt8) (result : UInt8 × (Nat → UInt8)) : Prop where
  parsed : parse (written result) = some src
  behind : ∀ index, result.1.toNat ≤ index → result.2 index = dst index

theorem ipv4ToStr_printsBack (src : Vector UInt8 4) (dst : Nat → UInt8) :
    PrintsBack inetPton4 src.toList dst (ipv4ToStr src dst) := by
  have holds := holds_ipv4ToStr src dst
  refine ⟨?_, ?_⟩
  · rcases exists_mapped src with ⟨addr, mapped⟩
    rw [holds.written, ← mapped]
    exact inetPton4_ipv4ToStr addr
  · intro index behind
    exact holds.behind index (holds.offset ▸ behind)

theorem ipv6ToStr_printsBack (src : Vector UInt8 16) (dst : Nat → UInt8) :
    PrintsBack eightGroups src.toList dst (ipv6ToStr src dst) := by
  have holds := holds_ipv6ToStr src dst
  refine ⟨?_, ?_⟩
  · rw [holds.written]
    exact eightGroups_ipv6ToStr (by simp)
  · intro index behind
    exact holds.behind index (holds.offset ▸ behind)

/-- What parses back is distinct for distinct addresses. -/
theorem PrintsBack.inj {parse : List UInt8 → Option (List UInt8)} {size : Nat}
    {left right : Vector UInt8 size} {dst other : Nat → UInt8}
    {leftResult rightResult : UInt8 × (Nat → UInt8)}
    (isLeft : PrintsBack parse left.toList dst leftResult)
    (isRight : PrintsBack parse right.toList other rightResult)
    (same : written leftResult = written rightResult) : left = right := by
  have parsed := isLeft.parsed
  rw [same, isRight.parsed] at parsed
  exact (Vector.toList_inj.mp (Option.some.inj parsed)).symm

/-- Printed addresses have the returned length, parse back, and are distinct. -/
theorem printed_addresses_parse_back :
    (∀ (src : Vector UInt8 4) (dst : Nat → UInt8),
      7 ≤ (ipv4ToStr src dst).1.toNat ∧ (ipv4ToStr src dst).1.toNat ≤ 15 ∧
        PrintsBack inetPton4 src.toList dst (ipv4ToStr src dst)) ∧
    (∀ (src : Vector UInt8 16) (dst : Nat → UInt8),
      (ipv6ToStr src dst).1.toNat = 39 ∧
        PrintsBack eightGroups src.toList dst (ipv6ToStr src dst)) ∧
    (∀ dst, Function.Injective fun src => written (ipv4ToStr src dst)) ∧
    ∀ dst, Function.Injective fun src => written (ipv6ToStr src dst) := by
  refine ⟨?_, ?_, ?_, ?_⟩
  · intro src dst
    have offset := (holds_ipv4ToStr src dst).offset
    rcases exists_mapped src with ⟨addr, mapped⟩
    have short := length_ipv4ToStr_le addr
    have long := seven_le_length src
    rw [mapped] at short
    dsimp only at offset
    exact ⟨by omega, by omega, ipv4ToStr_printsBack src dst⟩
  · intro src dst
    have offset := (holds_ipv6ToStr src dst).offset
    exact ⟨offset.trans (length_ipv6ToStr src), ipv6ToStr_printsBack src dst⟩
  · intro dst left right same
    exact (ipv4ToStr_printsBack left dst).inj (ipv4ToStr_printsBack right dst) same
  · intro dst left right same
    exact (ipv6ToStr_printsBack left dst).inj (ipv6ToStr_printsBack right dst) same

end FipsIpc.IpToStr
