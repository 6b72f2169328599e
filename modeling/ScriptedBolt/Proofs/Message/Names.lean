import ScriptedBolt.Proofs.Message.Wire
import ScriptedBolt.Script.Line

/-!
# The names of messages

All names in the catalogues are words of capital letters and underscores, as script lines spell
them. So is the name of every message that is read, since it is the name of a tag.
-/

namespace ScriptedBolt

/-- Whether a name is a word of capital letters and underscores. -/
def IsName (name : String) : Prop :=
  name.toList ≠ [] ∧ name.toList.all Script.isNameChar = true

instance (name : String) : Decidable (IsName name) := inferInstanceAs (Decidable (_ ∧ _))

/-- A catalogue has only such names. -/
theorem Version.isName_of_tag? {v : Version} {role : Role} {name : String} {tag : UInt8}
    (h : v.tag? role name = some tag) : IsName name := by
  have key (c : Catalogue) (hc : ∀ entry ∈ c, IsName entry.1) (h : c.tag? name = some tag) :
      IsName name := by
    simp only [Catalogue.tag?, Option.map_eq_some_iff] at h
    obtain ⟨entry, he, -⟩ := h
    have hname := List.find?_some he
    exact eq_of_beq hname ▸ hc entry (List.mem_of_find?_eq_some he)
  refine key (v.catalogue role) ?_ h
  cases role with
  | server =>
    show ∀ entry ∈ Catalogue.anyServer, IsName entry.1
    decide
  | client =>
    simp only [catalogue]
    split
    · decide
    · split
      · decide
      · decide

/-- What a role can send has such a name. -/
theorem Role.isName_of_knows {role : Role} {name : String} (h : role.knows name = true) :
    IsName name := by
  obtain ⟨v, -, htag⟩ := List.any_eq_true.mp h
  obtain ⟨tag, htag⟩ := Option.isSome_iff_exists.mp htag
  exact Version.isName_of_tag? htag

/-- A message that is read has such a name. -/
theorem Frame.Brings.isName {v : Version} {role : Role} {frame : Bytes} {m : Message}
    (h : Frame.Brings v role frame m) : IsName m.name := by
  obtain ⟨payload, -, hm⟩ := h
  unfold Message.ofPayload at hm
  split at hm
  · simp at hm
  · split at hm
    · next name hname =>
      rw [← Except.ok.inj hm]
      exact Version.isName_of_tag? (Version.tag?_of_name? hname)
    · simp at hm
  · simp at hm

end ScriptedBolt
