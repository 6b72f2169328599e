import ScriptedBolt.PackStream.Decode

/-!
# The grammar of PackStream

When a byte sequence stands for a value that lies on a given level, apart from how one is read
or written. A size may be spelled in any of the widths that hold it, and the entries of a map may
come in any order; so a value has many spellings, and the writer chooses one of them.
-/

namespace ScriptedBolt.PackStream

/-- A size after its marker: in the low half of `tiny`, or in the bytes after one of the markers
from `wide` on. -/
inductive SizeHeader (tiny wide : UInt8) : Bytes → Nat → Prop
  | inMarker {n : Nat} (h : n < 0x10) : SizeHeader tiny wide [tiny + UInt8.ofNat n] n
  | oneByte {n : Nat} (h : n < 0x100) : SizeHeader tiny wide (wide :: Bytes.ofNat 1 n) n
  | twoBytes {n : Nat} (h : n < 0x10000) :
    SizeHeader tiny wide ((wide + 1) :: Bytes.ofNat 2 n) n
  | fourBytes {n : Nat} (h : n < 0x100000000) :
    SizeHeader tiny wide ((wide + 2) :: Bytes.ofNat 4 n) n

/-- The size of a structure, which has at most two bytes. -/
inductive StructureHeader : Bytes → Nat → Prop
  | inMarker {n : Nat} (h : n < 0x10) : StructureHeader [0xB0 + UInt8.ofNat n] n
  | oneByte {n : Nat} (h : n < 0x100) : StructureHeader (0xDC :: Bytes.ofNat 1 n) n
  | twoBytes {n : Nat} (h : n < 0x10000) : StructureHeader (0xDD :: Bytes.ofNat 2 n) n

/-- The markers of integers, with the widths that follow them. -/
def integerMarkers : List (UInt8 × Nat) := [(0xC8, 1), (0xC9, 2), (0xCA, 4), (0xCB, 8)]

/-- Bytes that stand for a value without values below it. -/
inductive Scalar : Bytes → Value → Prop
  | null : Scalar [0xC0] .null
  | boolean (b : Bool) : Scalar [if b then 0xC3 else 0xC2] (.boolean b)
  | tiny {b : UInt8} (h : b.toNat < 0x80) : Scalar [b] (.integer (Int64.ofInt b.toNat))
  | tinyNegative {b : UInt8} (h : 0xF0 ≤ b.toNat) :
    Scalar [b] (.integer (Int64.ofInt (b.toNat - 0x100)))
  | integer {marker : UInt8} {digits : Bytes} (h : (marker, digits.length) ∈ integerMarkers) :
    Scalar (marker :: digits) (.integer (Int64.ofInt digits.toInt))
  | float {digits : Bytes} (h : digits.length = 8) :
    Scalar (0xC1 :: digits) (.float ⟨UInt64.ofNat digits.toNat⟩)
  | string {header : Bytes} {text : String}
    (h : SizeHeader 0x80 0xD0 header (Text.Utf8.encode text).length) :
    Scalar (header ++ Text.Utf8.encode text) (.string text)

/-- An integer can be spelled with any digits that stand for it. -/
theorem scalar_integer {marker : UInt8} {digits : Bytes} {n : Int64}
    (h : (marker, digits.length) ∈ integerMarkers) (hn : Int64.ofInt digits.toInt = n) :
    Scalar (marker :: digits) (.integer n) := by
  rw [← hn]
  exact .integer h

/-- A string of less than 16 bytes can be spelled behind its marker alone. -/
theorem scalar_shortString (text : String) (h : (Text.Utf8.encode text).length < 0x10) :
    Scalar ([0x80 + UInt8.ofNat (Text.Utf8.encode text).length] ++ Text.Utf8.encode text)
      (.string text) :=
  .string (.inMarker h)

mutual

/-- Bytes that stand for a value on a level. -/
inductive Denotes : (depth : Nat) → Bytes → Value → Prop
  | scalar {depth : Nat} {bytes : Bytes} {v : Value} (hd : depth ≤ maxDepth)
    (h : Scalar bytes v) : Denotes depth bytes v
  | list {depth : Nat} {header body : Bytes} {items : List Value} (hd : depth ≤ maxDepth)
    (h : SizeHeader 0x90 0xD4 header items.length) (hb : DenoteItems (depth + 1) body items) :
    Denotes depth (header ++ body) (.list items)
  | map {depth : Nat} {header body : Bytes} {entries : List (String × Value)}
    (hd : depth ≤ maxDepth) (h : SizeHeader 0xA0 0xD8 header entries.length)
    (hb : DenoteEntries (depth + 1) body entries) (hk : (entries.map Prod.fst).Nodup) :
    Denotes depth (header ++ body) (.ofEntries entries)
  | struct {depth : Nat} {header body : Bytes} {tag : UInt8} {fields : List Value}
    (hd : depth ≤ maxDepth) (h : StructureHeader header fields.length)
    (hb : DenoteItems (depth + 1) body fields) :
    Denotes depth (header ++ tag :: body) (.struct tag fields)

/-- Bytes that stand for items, one after the other. -/
inductive DenoteItems : (depth : Nat) → Bytes → List Value → Prop
  | nil {depth : Nat} : DenoteItems depth [] []
  | cons {depth : Nat} {item items : Bytes} {v : Value} {vs : List Value}
    (h : Denotes depth item v) (hs : DenoteItems depth items vs) :
    DenoteItems depth (item ++ items) (v :: vs)

/-- Bytes that stand for entries, each a key and its value, one after the other. -/
inductive DenoteEntries : (depth : Nat) → Bytes → List (String × Value) → Prop
  | nil {depth : Nat} : DenoteEntries depth [] []
  | cons {depth : Nat} {key value entries : Bytes} {k : String} {v : Value}
    {es : List (String × Value)} (hk : Denotes depth key (.string k))
    (hv : Denotes depth value v) (hs : DenoteEntries depth entries es) :
    DenoteEntries depth (key ++ value ++ entries) ((k, v) :: es)

end

/-- A header of a size starts with its marker. -/
theorem SizeHeader.length_pos {tiny wide : UInt8} {header : Bytes} {n : Nat}
    (h : SizeHeader tiny wide header n) : 0 < header.length := by
  cases h <;> simp

/-- A header of a structure starts with its marker. -/
theorem StructureHeader.length_pos {header : Bytes} {n : Nat} (h : StructureHeader header n) :
    0 < header.length := by
  cases h <;> simp

/-- A scalar takes at least a byte. -/
theorem Scalar.length_pos {bytes : Bytes} {v : Value} (h : Scalar bytes v) :
    0 < bytes.length := by
  cases h with
  | string h =>
    have := h.length_pos
    rw [List.length_append]
    omega
  | _ => simp

/-- A value takes at least a byte. -/
theorem Denotes.length_pos {depth : Nat} {bytes : Bytes} {v : Value}
    (h : Denotes depth bytes v) : 0 < bytes.length := by
  cases h with
  | scalar hd h => exact h.length_pos
  | list hd h hb =>
    have := h.length_pos
    rw [List.length_append]
    omega
  | map hd h hb hk =>
    have := h.length_pos
    rw [List.length_append]
    omega
  | struct hd h hb =>
    have := h.length_pos
    rw [List.length_append]
    omega

/-- Items take at least a byte each. -/
theorem DenoteItems.length_le {depth : Nat} {bytes : Bytes} {vs : List Value}
    (h : DenoteItems depth bytes vs) : vs.length ≤ bytes.length := by
  induction vs generalizing bytes with
  | nil => exact Nat.zero_le _
  | cons v vs ih =>
    cases h with
    | cons h hs =>
      have := h.length_pos
      have := ih hs
      rw [List.length_append, List.length_cons]
      omega

/-- Entries take at least two bytes each. -/
theorem DenoteEntries.length_le {depth : Nat} {bytes : Bytes} {es : List (String × Value)}
    (h : DenoteEntries depth bytes es) : 2 * es.length ≤ bytes.length := by
  induction es generalizing bytes with
  | nil => exact Nat.zero_le _
  | cons e es ih =>
    cases h with
    | cons hk hv hs =>
      have := hk.length_pos
      have := hv.length_pos
      have := ih hs
      rw [List.length_append, List.length_append, List.length_cons]
      omega

/-! ### Spellings by the shape of the value -/

section Inversion

variable {depth : Nat} {bytes : Bytes}

/-- No value is denoted below the deepest level. -/
theorem Denotes.depth_le {v : Value} (h : Denotes depth bytes v) : depth ≤ maxDepth := by
  cases h <;> assumption

/-- The spelling of a string is one of a scalar. -/
theorem Denotes.scalar_of_string {text : String} (h : Denotes depth bytes (.string text)) :
    Scalar bytes (.string text) := by
  cases h with
  | scalar hd h => exact h

/-- The spelling of a list is a header and its items. -/
theorem Denotes.list_inv {items : List Value} (h : Denotes depth bytes (.list items)) :
    ∃ header body, bytes = header ++ body ∧ SizeHeader 0x90 0xD4 header items.length ∧
      DenoteItems (depth + 1) body items := by
  cases h with
  | scalar hd h => cases h
  | list hd h hb => exact ⟨_, _, rfl, h, hb⟩

/-- The spelling of a structure is a header, its tag and its fields. -/
theorem Denotes.struct_inv {tag : UInt8} {fields : List Value}
    (h : Denotes depth bytes (.struct tag fields)) :
    ∃ header body, bytes = header ++ tag :: body ∧ StructureHeader header fields.length ∧
      DenoteItems (depth + 1) body fields := by
  cases h with
  | scalar hd h => cases h
  | struct hd h hb => exact ⟨_, _, rfl, h, hb⟩

/-- Entries that can be spelled can be spelled in any order, in as many bytes. -/
theorem DenoteEntries.perm {es es' : List (String × Value)} (h : DenoteEntries depth bytes es)
    (hperm : es.Perm es') :
    ∃ bytes', bytes'.length = bytes.length ∧ DenoteEntries depth bytes' es' := by
  induction hperm generalizing bytes with
  | nil => exact ⟨bytes, rfl, h⟩
  | cons e hperm ih =>
    cases h with
    | cons hk hv hs =>
      obtain ⟨entries', hlen, hs'⟩ := ih hs
      refine ⟨_, ?_, .cons hk hv hs'⟩
      simp only [List.length_append, hlen]
  | swap e e' es =>
    cases h with
    | cons hk hv hs =>
      cases hs with
      | cons hk' hv' hs' =>
        refine ⟨_, ?_, .cons hk' hv' (.cons hk hv hs')⟩
        simp only [List.length_append]
        omega
  | trans h₁ h₂ ih₁ ih₂ =>
    obtain ⟨mid, hmid, hm⟩ := ih₁ h
    obtain ⟨bytes', hlen, hb⟩ := ih₂ hm
    exact ⟨bytes', hlen.trans hmid, hb⟩

/-- The spelling of a map is as long as a header and its entries in the order of their keys. -/
theorem Denotes.map_inv {entries : List (String × Value)} (h : Denotes depth bytes (.map entries)) :
    ∃ header body, bytes.length = header.length + body.length ∧
      SizeHeader 0xA0 0xD8 header entries.length ∧ DenoteEntries (depth + 1) body entries ∧
      (entries.map Prod.fst).Pairwise (· < ·) := by
  cases h with
  | scalar hd h => cases h
  | @map _ header body spelled hd h hb hk =>
    have hperm := Entries.sort_perm hk
    obtain ⟨body', hlen, hbody⟩ := hb.perm hperm.symm
    refine ⟨header, body', ?_, ?_, hbody, Entries.ascending_sort spelled⟩
    · rw [List.length_append, hlen]
    · rwa [hperm.length_eq]

end Inversion

end ScriptedBolt.PackStream
