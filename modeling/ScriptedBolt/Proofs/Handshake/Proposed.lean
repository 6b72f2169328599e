import Mathlib.Data.List.Basic
import ScriptedBolt.Proofs.Handshake.Choice
import ScriptedBolt.Proofs.Script.Cues
import ScriptedBolt.Proofs.Session.Opening

/-!
# The word that is answered

The word of a version has nothing in its two high bytes, and a word that is read as a version is
looked at in its two low bytes only. So a version that is chosen stands in the low bytes of one of
the words proposed, and the word that answers it has these bytes; but it is itself one of the
proposals only if the version is proposed in a word that is short.
-/

namespace ScriptedBolt

namespace Version

variable {v : Version}

/-- Only versions with a word other than the empty slot are supported. -/
theorem ofWord?_toWord_of_supported (h : v.isSupported = true) : ofWord? v.toWord = some v := by
  apply ofWord?_toWord
  rintro rfl
  exact absurd h (by decide)

end Version

namespace Handshake

/-- Whether a word has nothing in its two high bytes. -/
def Short (word : UInt32) : Prop := word.toNat < 0x10000

variable {p : Proposals} {v : Version} {fixed : Option Version}

/-- The word of a version is short. -/
theorem short_toWord (v : Version) : Short v.toWord := by
  have hmajor := v.major.toNat_lt
  have hminor := v.minor.toNat_lt
  rw [Short, Version.toNat_toWord]
  omega

/-- A short word that is read as a version is the word of that version. -/
theorem eq_toWord_of_short {word : UInt32} (hshort : Short word)
    (h : Version.ofWord? word = some v) : word = v.toWord := by
  obtain ⟨-, hlow⟩ := Version.ofWord?_eq_some_iff.mp h
  apply UInt32.toNat_inj.mp
  rwa [Nat.mod_eq_of_lt hshort] at hlow

/-- A version stands in the two low bytes of a word that is read as it. -/
theorem drop_wordBytes {word : UInt32} (h : Version.ofWord? word = some v) :
    (wordBytes word).drop 2 = [v.minor, v.major] := by
  unfold Version.ofWord? at h
  split at h
  · simp at h
  · obtain rfl := Option.some.inj h
    simp [wordBytes, Bytes.ofNat]

/-- The word of a version is proposed if the version is proposed in a short word. -/
theorem toWord_mem_iff (hv : v.isSupported = true) :
    v.toWord ∈ p.words ↔ ∃ word ∈ p.words, Version.ofWord? word = some v ∧ Short word := by
  constructor
  · intro hmem
    exact ⟨v.toWord, hmem, Version.ofWord?_toWord_of_supported hv, short_toWord v⟩
  · rintro ⟨word, hmem, hread, hshort⟩
    rwa [← eq_toWord_of_short hshort hread]

/-- A version that is chosen is offered, and is supported if what is asked for is. -/
theorem offered_of_negotiate (hfixed : ∀ w ∈ fixed, w.isSupported = true)
    (h : negotiate p fixed = .ok v) : v ∈ p.offered ∧ v.isSupported = true := by
  cases fixed with
  | none =>
    have hgreatest := negotiate_none_iff.mp h
    exact ⟨hgreatest.mem, hgreatest.supported⟩
  | some w =>
    obtain ⟨rfl, hmem⟩ := negotiate_some_iff.mp h
    exact ⟨hmem, hfixed v rfl⟩

end Handshake

namespace Session

open Handshake

/-- Without bytes of its own a script answers with the word of the version chosen. -/
theorem output_of_word {ctx : Context} {script : Script} {link : Link} {v : Version}
    (hreply : script.reply? = none) (h : (shakeHands ctx script link).1 = .ok v) :
    (shakeHands ctx script link).2.1.sink.output.toList =
      link.sink.output.toList ++ wordBytes v.toWord := by
  obtain ⟨p, ho, hn, hsent⟩ := agreed_of_shakeHands ctx h
  obtain ⟨rest, -, -, hlink, -⟩ := shakeHands_of_agreed ctx ho hn
  obtain ⟨accepted, -, houtput, hall⟩ := link.sink.output_send (script.answerTo v)
  have hanswer : script.answerTo v = wordBytes v.toWord := by
    rw [Script.answerTo, hreply, Option.getD_none]
  rw [hlink, houtput, hall hsent, hanswer]

/-- A version that is chosen stands in the low bytes of one of the words proposed. Its own word is
proposed exactly if one of the words that it stands in is short. A script without bytes of its own
answers with the word of the version, whose bytes are those of a proposal under the same condition
and no other. -/
theorem negotiate_word {p : Proposals} {fixed : Option Version}
    (hfixed : ∀ w ∈ fixed, w.isSupported = true) {v : Version} (h : negotiate p fixed = .ok v) :
    let InShort := ∃ word ∈ p.words, Version.ofWord? word = some v ∧ Short word
    (∃ word ∈ p.words, word ≠ 0 ∧ (wordBytes word).drop 2 = (wordBytes v.toWord).drop 2) ∧
      (v.toWord ∈ p.words ↔ InShort) ∧
      ∀ ctx script link, opening? link.source = some p → script.version? = fixed →
        script.reply? = none → (shakeHands ctx script link).1 = .ok v →
        ∃ reply, (shakeHands ctx script link).2.1.sink.output.toList =
            link.sink.output.toList ++ reply ∧
          reply.length = 4 ∧ (reply ∈ p.words.map wordBytes ↔ InShort) := by
  intro InShort
  obtain ⟨hoffered, hsupported⟩ := offered_of_negotiate hfixed h
  have hword : v.toWord ∈ p.words ↔ InShort := toWord_mem_iff hsupported
  refine ⟨?_, hword, ?_⟩
  · obtain ⟨word, hmem, hread⟩ := List.mem_filterMap.mp hoffered
    refine ⟨word, hmem, (Version.ofWord?_eq_some_iff.mp hread).1, ?_⟩
    rw [drop_wordBytes hread, wordBytes_toWord]
    rfl
  · intro ctx script link _ _ hreply hshaken
    refine ⟨wordBytes v.toWord, output_of_word hreply hshaken, Bytes.length_ofNat 4 _, ?_⟩
    rw [List.mem_map_of_injective wordBytes_injective, hword]

/-- A client that proposes 4.0 in a word whose high bytes are not zero, and then 3.0. -/
private def wide : Proposals := ⟨0x10004, 3, 0, 0⟩

/-- What it sends, over a connection that takes everything. -/
private def wideBidder : Link where
  source := [.deliver (magic ++ wide.bytes)]
  sink := .unbounded

/-- Without a version that is asked for, that client gets 4.0, whose word it did not propose. If 3.0
is asked for it gets 3.0, whose word it proposed. -/
theorem negotiate_word_wide :
    (negotiate wide none = .ok ⟨4, 0⟩ ∧ Version.toWord ⟨4, 0⟩ ∉ wide.words) ∧
      negotiate wide (some ⟨3, 0⟩) = .ok ⟨3, 0⟩ ∧ Version.toWord ⟨3, 0⟩ ∈ wide.words := by
  have hfour : negotiate wide none = .ok ⟨4, 0⟩ := rfl
  have hthree : negotiate wide (some ⟨3, 0⟩) = .ok ⟨3, 0⟩ := rfl
  obtain ⟨-, hunproposed, -⟩ := negotiate_word (by simp) hfour
  obtain ⟨-, hproposed, -⟩ := negotiate_word (by decide) hthree
  refine ⟨⟨hfour, mt hunproposed.mp ?_⟩, hthree, hproposed.mpr ?_⟩
  · unfold Short
    decide
  · unfold Short
    decide

/-- A script without bytes of its own answers that client with a word that it did not propose. -/
theorem answers_unproposed :
    Script.parse "S: <NOOP>" = .ok Script.pulse ∧ Script.pulse.reply? = none ∧
      (shakeHands ⟨.default, "peer"⟩ Script.pulse wideBidder).1 = .ok ⟨4, 0⟩ ∧
      (shakeHands ⟨.default, "peer"⟩ Script.pulse wideBidder).2.1.sink.output.toList =
        [0, 0, 0, 4] ∧
      [0, 0, 0, 4] ∉ wide.words.map wordBytes := by
  have hshaken : (shakeHands ⟨.default, "peer"⟩ Script.pulse wideBidder).1 = .ok ⟨4, 0⟩ := by
    with_unfolding_all rfl
  exact ⟨Script.parse_pulse, rfl, hshaken, output_of_word rfl hshaken, by decide⟩

end Session

end ScriptedBolt
