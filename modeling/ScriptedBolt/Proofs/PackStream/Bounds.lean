import Mathlib.Tactic.SplitIfs
import ScriptedBolt.Proofs.PackStream.Access
import ScriptedBolt.Proofs.PackStream.Recognition

/-!
# Decoding stays within bounds

The decoder as a program on a buffer, where each access stands after the check that is meant for it.
The program comes to the same result as the reader and leaves the same bytes, and no access asks for
more than is left (`Agrees`). So none of them breaks, and no more room is made than there are bytes,
whatever size the bytes claim.
-/

namespace ScriptedBolt.PackStream

namespace Program

variable {α β : Type}

/-! ### The decoder -/

/-- Fails because of what the bytes are. -/
def refuse (e : DecodeError) : Program α := fail (.protocol (.decode e))

/-- Fails unless at least `n` bytes are left. -/
def need (n : Nat) : Program Unit :=
  remaining fun left ↦ if left < n then refuse (.truncated n left) else done ()

/-- Takes one byte. -/
def byte : Program UInt8 := do return UInt8.ofNat (← take 1).toNat

/-- Takes a number of the given width in bytes. -/
def number (width : Nat) : Program Nat := do return (← take width).toNat

/-- Takes an integer of the given width in bytes. -/
def integer (width : Nat) : Program Value := do
  return .integer (Int64.ofInt (← take width).toInt)

/-- Takes a float. -/
def float : Program Value := do return .float ⟨UInt64.ofNat (← take 8).toNat⟩

/-- Reads a size after the marker at the given position among those of its kind. -/
def size : (position : Nat) → Program Nat
  | 0 => do need 1; number 1
  | 1 => do need 2; number 2
  | _ => do need 4; number 4

/-- Reads a string of the given number of bytes. -/
def string (size : Nat) : Program Value := do
  need size
  match Text.Utf8.decode (← view size) with
  | .error stop => refuse (.invalidText stop) -- The bytes are not skipped.
  | .ok text =>
    skip size
    return .string text

/-- Reads `count` items, with those read before in `before`, last first. -/
def items (item : Program Value) (before : List Value) : (count : Nat) → Program (List Value)
  | 0 => return before.reverse
  | count + 1 => do items item ((← item) :: before) count

/-- Reads `count` entries, with those read before in `before`, last first, and their keys in
`seen`. -/
def entries (item : Program Value) (before : List (String × Value)) (seen : Std.HashSet String) :
    (count : Nat) → Program (List (String × Value))
  | 0 => return before.reverse
  | count + 1 => do
    match ← item with
    | .string key =>
      let value ← item
      if seen.contains key then refuse (.duplicateKey key)
      else entries item ((key, value) :: before) (seen.insert key) count
    | key => refuse (.keyNotString key)

/-- Reads a list of the given size. -/
def list (item : Program Value) (size : Nat) : Program Value := do
  need size
  reserve size
  return .list (← items item [] size)

/-- Reads a map of the given size. -/
def mapOf (item : Program Value) (size : Nat) : Program Value := do
  need (2 * size)
  return .ofEntries (← entries item [] ∅ size)

/-- Reads a structure with the given number of fields. -/
def struct (item : Program Value) (size : Nat) : Program Value := do
  need 1
  let tag ← byte
  need size
  reserve size
  return .struct tag (← items item [] size)

/-- Reads what follows a marker, with `item` for the values one level below. -/
def afterMarker (item : Program Value) (marker : UInt8) : Program Value :=
  let m := marker.toNat
  if m < 0x80 then return .integer (Int64.ofInt m)
  else if 0xF0 ≤ m then return .integer (Int64.ofInt (m - 0x100))
  else if m < 0x90 then string (m % 16)
  else if m < 0xA0 then list item (m % 16)
  else if m < 0xB0 then mapOf item (m % 16)
  else if m < 0xC0 then struct item (m % 16)
  else
    match m with
    | 0xC0 => return .null
    | 0xC1 => do need 8; float
    | 0xC2 => return .boolean false
    | 0xC3 => return .boolean true
    | 0xC8 => do need 1; integer 1
    | 0xC9 => do need 2; integer 2
    | 0xCA => do need 4; integer 4
    | 0xCB => do need 8; integer 8
    | 0xD0 | 0xD1 | 0xD2 => do string (← size (m - 0xD0))
    | 0xD4 | 0xD5 | 0xD6 => do list item (← size (m - 0xD4))
    | 0xD8 | 0xD9 | 0xDA => do mapOf item (← size (m - 0xD8))
    | 0xDC | 0xDD => do struct item (← size (m - 0xDC))
    | _ => refuse (.unknownMarker marker)

/-- Reads a value when it and the values below it may take up `levels` levels. -/
def value : (levels : Nat) → Program Value
  | 0 => refuse .tooDeep
  | levels + 1 => do
    need 1
    afterMarker (value levels) (← byte)

/-- Reads the next value, which lies on level `depth`. -/
def decodeNext (depth : Nat) : Program Value := value (maxDepth + 1 - depth)

end Program

/-- The end of a run that comes to the result of a reader. -/
def Ending.ofResult {α : Type} : Except DecodeError α → Ending α
  | .ok a => .value a
  | .error e => .error (.protocol (.decode e))

/-- Whether a program comes to the same result as a reader and leaves the same bytes, without an
access that asks for more than is left. -/
structure Agrees {α : Type} (program : Program α) (read : Reader α) (bytes : Bytes) : Prop where
  ending : (program.run bytes).ending = .ofResult (read bytes).1
  rest : (program.run bytes).rest = (read bytes).2
  inBounds : (program.run bytes).InBounds

/-! ### Readers, one step at a time -/

namespace Reader

/-- A string is looked at once it is known that its bytes are there. -/
theorem string_eq_bind (size : Nat) :
    string size = bind (need size) fun _ bs ↦
      match Text.Utf8.decode (bs.take size) with
      | .ok text => (.ok (.string text), bs.drop size)
      | .error stop => (.error (.invalidText stop), bs) := by
  funext bs
  unfold string bind take need
  split_ifs <;> rfl

/-- One more item is read before the others. -/
theorem items_succ (item : Reader Value) (before : List Value) (count : Nat) :
    items item before (count + 1) = bind item fun v ↦ items item (v :: before) count := by
  funext bs
  simp only [items, bind]
  rcases item bs with ⟨_ | _, rest⟩ <;> rfl

/-- One more entry is read before the others: its key, then its value, and only then it is known
whether the key is new. -/
theorem entries_succ (item : Reader Value) (before : List (String × Value))
    (seen : Std.HashSet String) (count : Nat) :
    entries item before seen (count + 1) = bind item fun
      | .string key => bind item fun value ↦
        if seen.contains key then fail (.duplicateKey key)
        else entries item ((key, value) :: before) (seen.insert key) count
      | key => fail (.keyNotString key) := by
  funext bs
  simp only [entries, bind]
  rcases item bs with ⟨_ | key, rest⟩
  · rfl
  cases key with
  | string key =>
    simp only [bind]
    rcases item rest with ⟨_ | value, rest⟩
    · rfl
    · dsimp only
      split_ifs <;> rfl
  | _ => rfl

end Reader

/-! ### Agreement of the parts -/

section Agreement

variable {α β : Type} {bytes : Bytes}

/-- A program that is done has read nothing. -/
theorem agrees_done (a : α) (bytes : Bytes) : Agrees (.done a) (Reader.pure a) bytes :=
  ⟨rfl, rfl, by simp [Run.InBounds, Program.run]⟩

/-- A program that refuses what it has read reads no more. -/
theorem agrees_refuse (e : DecodeError) (bytes : Bytes) :
    Agrees (Program.refuse e : Program α) (Reader.fail e) bytes :=
  ⟨rfl, rfl, by simp [Run.InBounds, Program.refuse, Program.run]⟩

/-- Only what the reader makes of these bytes matters. -/
theorem Agrees.congr {program : Program α} {read read' : Reader α} (h : Agrees program read bytes)
    (hread : read' bytes = read bytes) : Agrees program read' bytes :=
  ⟨by rw [hread, h.ending], by rw [hread, h.rest], h.inBounds⟩

/-- Parts that agree do so one after the other. -/
theorem Agrees.bind {program : Program α} {read : Reader α} {next : α → Program β}
    {later : α → Reader β} (h : Agrees program read bytes)
    (hlater : ∀ a rest, read bytes = (.ok a, rest) → Agrees (next a) (later a) rest) :
    Agrees (program >>= next) (Reader.bind read later) bytes := by
  obtain ⟨hending, hrest, hbounds⟩ := h
  cases hread : read bytes with
  | mk result rest =>
    rw [hread] at hending hrest
    dsimp only at hending hrest
    cases result with
    | error e =>
      constructor <;> simp only [Program.run_bind, Run.andThen, hending, Ending.ofResult,
        Reader.bind, hread]
      · exact hrest
      · exact hbounds
    | ok a =>
      obtain ⟨hending', hrest', hbounds'⟩ := hlater a rest hread
      constructor <;> simp only [Program.run_bind, Run.andThen, hending, Ending.ofResult,
        Reader.bind, hread, hrest]
      · exact hending'
      · exact hrest'
      · intro access left hmem
        rcases List.mem_append.mp hmem with hmem | hmem
        · exact hbounds access left hmem
        · exact hbounds' access left hmem

/-- An access that asks for what is there is followed by the rest of the program. -/
theorem agrees_ask {access : Access} {next : Bytes → Program α} {read later : Reader α}
    (hle : access.amount ≤ bytes.length) (hread : read bytes = later (bytes.drop access.taken))
    (h : Agrees (next (access.shown bytes)) later (bytes.drop access.taken)) :
    Agrees (.ask access next) read bytes := by
  have hrun : (Program.ask access next).run bytes =
      ((next (access.shown bytes)).run (bytes.drop access.taken)).after access bytes.length := by
    rw [Program.run, if_pos (Nat.le_trans access.reach_le_amount hle)]
  obtain ⟨hending, hrest, hbounds⟩ := h
  constructor
  · rw [hrun, hread]
    exact hending
  · rw [hrun, hread]
    exact hrest
  · rw [hrun, Run.inBounds_after_iff]
    exact ⟨hle, hbounds⟩

/-- Bytes that are there are viewed, and stay. -/
theorem agrees_view {n : Nat} {next : Bytes → Program α} {read : Reader α}
    (hle : n ≤ bytes.length) (h : Agrees (next (bytes.take n)) read bytes) :
    Agrees (Program.view n >>= next) read bytes :=
  agrees_ask hle rfl h

/-- Bytes that are there are skipped. -/
theorem agrees_skip {n : Nat} {next : Program α} {later : Reader α} (hle : n ≤ bytes.length)
    (h : Agrees next later (bytes.drop n)) :
    Agrees (Program.skip n >>= fun _ ↦ next) (fun bs ↦ later (bs.drop n)) bytes :=
  agrees_ask hle rfl h

/-- Room is made for as many items as bytes are there. -/
theorem agrees_reserve {n : Nat} {next : Program α} {read : Reader α} (hle : n ≤ bytes.length)
    (h : Agrees next read bytes) : Agrees (Program.reserve n >>= fun _ ↦ next) read bytes :=
  agrees_ask hle rfl h

/-- Finding out how many bytes are left is no access. -/
theorem agrees_remaining {next : Nat → Program α} {read : Reader α}
    (h : Agrees (next bytes.length) read bytes) : Agrees (.remaining next) read bytes :=
  ⟨h.ending, h.rest, h.inBounds⟩

/-- The check for enough bytes makes no access. -/
theorem agrees_need (n : Nat) (bytes : Bytes) : Agrees (.need n) (Reader.need n) bytes := by
  apply agrees_remaining
  split
  · next hlt =>
    have hhold : ¬ Bytes.holds bytes n = true := by
      rw [Bytes.holds_iff]
      exact Nat.not_le_of_lt hlt
    exact (agrees_refuse _ bytes).congr (if_neg hhold)
  · next hle => exact (agrees_done _ bytes).congr (Reader.need_of_le (Nat.le_of_not_lt hle))

/-- What comes after a check may rely on it. -/
theorem agrees_need_bind {n : Nat} {next : Program α} {later : Reader α}
    (h : n ≤ bytes.length → Agrees next later bytes) :
    Agrees (Program.need n >>= fun _ ↦ next) (Reader.bind (Reader.need n) fun _ ↦ later) bytes := by
  apply (agrees_need n bytes).bind
  intro _ rest hneed
  obtain ⟨hle, rfl⟩ := Reader.need_eq_ok_iff.mp hneed
  exact h hle

/-! ### Agreement of the readers -/

/-- Bytes that were checked for are taken. -/
theorem agrees_take {n : Nat} {next : Bytes → Program α} {later : Bytes → Reader α}
    (h : ∀ front rest, Agrees (next front) (later front) rest) :
    Agrees (Program.need n >>= fun _ ↦ Program.take n >>= next)
      (Reader.bind (Reader.take n) later) bytes := by
  have hread : Reader.bind (Reader.take n) later =
      Reader.bind (Reader.need n) fun _ bs ↦ later (bs.take n) (bs.drop n) := by
    funext bs
    unfold Reader.bind Reader.take Reader.need
    split_ifs <;> rfl
  rw [hread]
  exact agrees_need_bind fun hle ↦ agrees_ask hle rfl (h _ _)

/-- A value is made of bytes that were checked for and taken. -/
theorem agrees_map_take {n : Nat} (f : Bytes → α) (bytes : Bytes) :
    Agrees (Program.need n >>= fun _ ↦ Program.take n >>= fun front ↦ pure (f front))
      (Reader.map f (Reader.take n)) bytes :=
  agrees_take fun front rest ↦ agrees_done (f front) rest

/-- A byte that was checked for is taken. -/
theorem agrees_byte {next : UInt8 → Program α} {later : UInt8 → Reader α}
    (h : ∀ b rest, Agrees (next b) (later b) rest) :
    Agrees (Program.need 1 >>= fun _ ↦ Program.byte >>= next)
      (Reader.bind Reader.byte later) bytes := by
  have hread : Reader.bind Reader.byte later =
      Reader.bind (Reader.take 1) fun front ↦ later (UInt8.ofNat front.toNat) := by
    funext bs
    cases bs with
    | nil => rfl
    | cons b bs =>
      have hb : UInt8.ofNat (Bytes.toNat [b]) = b := by simp [Bytes.toNat]
      simp [Reader.bind, Reader.byte, Reader.take, Bytes.holds, hb]
  rw [hread]
  exact agrees_take fun front rest ↦ h _ rest

/-- Reading goes on from a size in the width that the position of its marker tells. -/
theorem agrees_size_bind {next : Nat → Program α} {later : Nat → Reader α}
    (h : ∀ n rest, Agrees (next n) (later n) rest) (bytes : Bytes) :
    Agrees (Program.size 0 >>= next) (Reader.bind (Reader.size 1) later) bytes ∧
      Agrees (Program.size 1 >>= next) (Reader.bind (Reader.size 2) later) bytes ∧
        Agrees (Program.size 2 >>= next) (Reader.bind (Reader.size 4) later) bytes :=
  ⟨(agrees_map_take _ bytes).bind fun n rest _ ↦ h n rest,
    (agrees_map_take _ bytes).bind fun n rest _ ↦ h n rest,
    (agrees_map_take _ bytes).bind fun n rest _ ↦ h n rest⟩

/-- A string is viewed, and skipped if it is a text. -/
theorem agrees_string (size : Nat) (bytes : Bytes) :
    Agrees (.string size) (Reader.string size) bytes := by
  rw [Reader.string_eq_bind]
  apply agrees_need_bind
  intro hle
  apply agrees_view hle
  cases hdecode : Text.Utf8.decode (bytes.take size) with
  | error stop => exact (agrees_refuse _ bytes).congr (by simp only [hdecode, Reader.fail])
  | ok text =>
    exact (agrees_skip hle (agrees_done _ _)).congr (by simp only [hdecode, Reader.pure])

/-- Items are read one after the other. -/
theorem agrees_items {item : Program Value} {read : Reader Value}
    (hitem : ∀ bytes, Agrees item read bytes) (before : List Value) (count : Nat)
    (bytes : Bytes) :
    Agrees (.items item before count) (Reader.items read before count) bytes := by
  induction count generalizing before bytes with
  | zero => exact agrees_done _ bytes
  | succ count ih =>
    rw [Reader.items_succ]
    exact (hitem bytes).bind fun v rest _ ↦ ih (v :: before) rest

/-- Entries are read one after the other. -/
theorem agrees_entries {item : Program Value} {read : Reader Value}
    (hitem : ∀ bytes, Agrees item read bytes) (before : List (String × Value))
    (seen : Std.HashSet String) (count : Nat) (bytes : Bytes) :
    Agrees (.entries item before seen count) (Reader.entries read before seen count) bytes := by
  induction count generalizing before seen bytes with
  | zero => exact agrees_done _ bytes
  | succ count ih =>
    rw [Reader.entries_succ]
    apply (hitem bytes).bind
    intro v rest _
    cases v with
    | string key =>
      apply (hitem rest).bind
      intro value rest _
      split
      · exact agrees_refuse _ rest
      · exact ih _ _ rest
    | _ => exact agrees_refuse _ rest

section Containers

variable {item : Program Value} {read : Reader Value} (hitem : ∀ bytes, Agrees item read bytes)
include hitem

/-- The check on the items of a list bounds the room that is made for them. -/
theorem agrees_list (size : Nat) (bytes : Bytes) :
    Agrees (.list item size) (Reader.list read size) bytes := by
  apply agrees_need_bind
  intro hle
  apply agrees_reserve hle
  exact (agrees_items hitem [] size bytes).bind fun _ rest _ ↦ agrees_done _ rest

/-- No room is made for the entries of a map. -/
theorem agrees_mapOf (size : Nat) (bytes : Bytes) :
    Agrees (.mapOf item size) (Reader.mapOf read size) bytes :=
  agrees_need_bind fun _ ↦
    (agrees_entries hitem [] ∅ size bytes).bind fun _ rest _ ↦ agrees_done _ rest

/-- The check on the fields of a structure comes after its tag, as the room for them does. -/
theorem agrees_struct (size : Nat) (bytes : Bytes) :
    Agrees (.struct item size) (Reader.struct read size) bytes := by
  apply agrees_byte
  intro tag rest
  apply agrees_need_bind
  intro hle
  apply agrees_reserve hle
  exact (agrees_items hitem [] size rest).bind fun _ rest _ ↦ agrees_done _ rest

/-- Whatever the marker says, its access stands after the check of the same width. -/
theorem agrees_afterMarker (marker : UInt8) (bytes : Bytes) :
    Agrees (.afterMarker item marker) (Reader.afterMarker read marker) bytes := by
  unfold Program.afterMarker Reader.afterMarker
  dsimp only
  generalize marker.toNat = m
  split_ifs
  · exact agrees_done _ bytes
  · exact agrees_done _ bytes
  · exact agrees_string _ bytes
  · exact agrees_list hitem _ bytes
  · exact agrees_mapOf hitem _ bytes
  · exact agrees_struct hitem _ bytes
  · have hstring := agrees_size_bind agrees_string bytes
    have hlist := agrees_size_bind (agrees_list hitem) bytes
    have hmap := agrees_size_bind (agrees_mapOf hitem) bytes
    have hstruct := agrees_size_bind (agrees_struct hitem) bytes
    -- The markers that are told by a table, in the order of the table.
    split
    case h_2 | h_5 | h_6 | h_7 | h_8 => exact agrees_map_take _ bytes
    case h_9 => exact hstring.1
    case h_10 => exact hstring.2.1
    case h_11 => exact hstring.2.2
    case h_12 => exact hlist.1
    case h_13 => exact hlist.2.1
    case h_14 => exact hlist.2.2
    case h_15 => exact hmap.1
    case h_16 => exact hmap.2.1
    case h_17 => exact hmap.2.2
    case h_18 => exact hstruct.1
    case h_19 => exact hstruct.2.1
    case h_20 =>
      -- The table of the reader has no entry for this byte either.
      exact (agrees_refuse _ bytes).congr (congrFun (by grind) bytes)
    all_goals exact agrees_done _ bytes

end Containers

end Agreement

/-- The decoder as a program agrees with the reader, on however many levels. -/
theorem agrees_value (levels : Nat) (bytes : Bytes) :
    Agrees (.value levels) (Reader.value levels) bytes := by
  induction levels generalizing bytes with
  | zero => exact agrees_refuse _ bytes
  | succ levels ih => exact agrees_byte fun marker rest ↦ agrees_afterMarker ih marker rest

/-- A value that is read takes at least a byte. -/
theorem rest_ne_of_decodeNext {depth : Nat} {bytes rest : Bytes} {v : Value}
    (h : decodeNext depth bytes = (.ok v, rest)) : rest ≠ bytes := by
  obtain ⟨front, rfl, hfront⟩ := decodeNext_eq_ok_iff.mp h
  intro hrest
  have hlength := congrArg List.length hrest
  have hpos := hfront.length_pos
  rw [List.length_append] at hlength
  omega

/-- Decoding never goes beyond the bytes that are there, whatever they are and on whatever level. No
access takes, views or skips more bytes than are left, and none makes room for more items than bytes
are left. What is left in the end is the end of the bytes, and the others were taken by the
accesses. The run ends with a value, and then bytes are gone, or it ends with an error of the
protocol, as the reader does; an access never breaks. -/
theorem decodeNext_in_bounds (depth : Nat) (bytes : Bytes) :
    let run := (Program.decodeNext depth).run bytes
    (∀ access left, (access, left) ∈ run.log → access.amount ≤ left) ∧
      run.rest <:+ bytes ∧ run.taken + run.rest.length = bytes.length ∧
      ((∃ v, decodeNext depth bytes = (.ok v, run.rest) ∧ run.ending = .value v ∧
          run.rest ≠ bytes) ∨
        ∃ e, decodeNext depth bytes = (.error e, run.rest) ∧
          run.ending = .error (.protocol (.decode e))) := by
  intro run
  obtain ⟨hending, hrest, hbounds⟩ : Agrees (.decodeNext depth) (decodeNext depth) bytes :=
    agrees_value _ bytes
  have hwhole : run.ending ≠ .broken := by
    intro hbroken
    rw [hbroken] at hending
    cases hresult : (decodeNext depth bytes).1 <;> simp [hresult, Ending.ofResult] at hending
  refine ⟨hbounds, Program.rest_run _ bytes, Program.taken_run _ bytes hwhole, ?_⟩
  cases hread : decodeNext depth bytes with
  | mk result rest =>
    rw [hread] at hending hrest
    cases result with
    | ok v => exact .inl ⟨v, by rw [hrest], hending, hrest ▸ rest_ne_of_decodeNext hread⟩
    | error e => exact .inr ⟨e, by rw [hrest], hending⟩

/-- Each access of a list with a wide header, in order; and a list that claims to have as many items
as four bytes can count, for which no room is made. -/
theorem decodeNext_in_bounds_wide :
    let run := (Program.decodeNext 3).run [0xD4, 2, 1, 0x81, 0x61, 0xFF]
    run.log = [(.take 1, 6), (.take 1, 5), (.reserve 2, 4), (.take 1, 4), (.take 1, 3),
        (.view 1, 2), (.skip 1, 2)] ∧
      (Access.reserve 2).amount ≤ 4 ∧ run.rest = [0xFF] ∧
      ((Program.decodeNext 0).run [0xD6, 0xFF, 0xFF, 0xFF, 0xFF]).log =
        [(.take 1, 5), (.take 4, 4)] := by
  intro run
  have hlog : run.log = [(.take 1, 6), (.take 1, 5), (.reserve 2, 4), (.take 1, 4), (.take 1, 3),
      (.view 1, 2), (.skip 1, 2)] := by with_unfolding_all rfl
  refine ⟨hlog, ?_, by with_unfolding_all rfl, by with_unfolding_all rfl⟩
  exact (decodeNext_in_bounds 3 [0xD4, 2, 1, 0x81, 0x61, 0xFF]).1 (.reserve 2) 4
    (by rw [hlog]; decide)

end ScriptedBolt.PackStream
