import ScriptedBolt.Proofs.Handshake.Choice
import ScriptedBolt.Proofs.Script.Cues
import ScriptedBolt.Proofs.Session.Opening
import ScriptedBolt.Proofs.Wire.Ending

/-!
# What becomes of a handshake

With a client that is heard to the end and a connection that takes all that is written, a handshake
is settled by the bytes that the client sends: by how many there are, by their first four, and by
the words in the sixteen behind these. This is said of the result, of the bytes that are left and of
the bytes that are written.
-/

namespace ScriptedBolt

namespace Handshake

variable {s : Source} {p : Proposals}

/-- Only the first four bytes are read when they are not the magic. -/
theorem bytes_of_badMagic (h : 4 ≤ s.ready.length) (hm : s.ready.take 4 ≠ magic) :
    (Handshake.read s).2.bytes = s.bytes.drop 4 := by
  obtain ⟨rest, he, -⟩ := Source.readExact_of_le h
  obtain ⟨hbytes, hlen⟩ := Source.bytes_readExact he
  simp only [Handshake.read, he, hm, ↓reduceIte]
  rw [hbytes]
  exact (List.drop_left' hlen).symm

/-- Proposals are told apart by their bytes. -/
theorem Proposals.bytes_inj {p q : Proposals} (h : p.bytes = q.bytes) : p = q := by
  rw [← p.ofBytes_bytes, h, q.ofBytes_bytes]

/-- Twenty bytes that start with the magic are the bytes of an opening. -/
theorem exists_bytes_of_magic {bytes : Bytes} (hm : bytes.take 4 = magic)
    (hlen : 20 ≤ bytes.length) : ∃ p : Proposals, bytes.take 20 = magic ++ p.bytes := by
  have hwords : ((bytes.drop 4).take 16).length = 16 := by
    rw [List.length_take, List.length_drop]
    omega
  refine ⟨.ofBytes ((bytes.drop 4).take 16), ?_⟩
  rw [Proposals.bytes_ofBytes hwords, ← hm]
  exact List.take_add (i := 4) (j := 16)

/-- A source that comes to its end delivers an opening if it starts with the bytes of one. -/
theorem opening?_of_take (hend : s.stop? = none) (h : s.bytes.take 20 = magic ++ p.bytes) :
    opening? s = some p := by
  have hready : s.ready = magic ++ p.bytes ++ s.bytes.drop 20 := by
    rw [Source.ready_eq_bytes hend, ← h, List.take_append_drop]
  exact (opening?_of_ready hready).1

end Handshake

/-- The bytes that answer a version: those that the script gives, or the word of the version. -/
theorem Script.answerTo_eq (s : Script) (v : Version) :
    s.answerTo v = s.reply?.getD [0, 0, v.minor, v.major] := by
  rw [Script.answerTo, Handshake.wordBytes_toWord]

namespace Session

variable {script : Script} {link : Link} {p : Handshake.Proposals}

/-- With a sink that takes everything, a handshake whose opening is made ends as the choice of the
version does. -/
theorem shakeHands_of_steady (ctx : Context) (hsteady : link.sink.Steady)
    (ho : Handshake.opening? link.source = some p) :
    (shakeHands ctx script link).1 = Handshake.negotiate p script.version? ∧
      (shakeHands ctx script link).2.1.sink.output.toList = link.sink.output.toList ++
        match Handshake.negotiate p script.version? with
        | .ok v => script.answerTo v
        | .error _ => [0, 0, 0, 0] := by
  have written (bytes : Bytes) :
      (link.sink.send bytes).2.output.toList = link.sink.output.toList ++ bytes := by
    obtain ⟨accepted, -, hout, hall⟩ := link.sink.output_send bytes
    rw [hout, hall (Sink.send_of_steady hsteady bytes).1]
  cases hn : Handshake.negotiate p script.version? with
  | error e =>
    obtain ⟨hresult, hsink⟩ := shakeHands_of_disagreed ctx ho hn
    exact ⟨hresult, by rw [hsink, written]⟩
  | ok v =>
    obtain ⟨rest, -, -, hlink, -, hok⟩ := shakeHands_of_agreed ctx ho hn
    exact ⟨hok (Sink.send_of_steady hsteady _).1, by rw [hlink, written]⟩

/-- A handshake with a client that is heard to the end, over a connection that takes everything.

With fewer than four bytes, or the magic and fewer than twenty, it fails because the connection is
closed, and writes nothing. If the first four bytes are not the magic, it fails for that, having
read these and written nothing. Otherwise it reads twenty bytes, the magic and four words. A version
that the script asks for is the result if it is offered; if the script asks for none, the result is
the greatest supported version offered, and a failure if there is none. The bytes that the script
gives or the word of the version are written on success, and the word zero on failure. From words
that make the same set, empty slots apart, the result is the same, but for the order in which an
error lists the versions. -/
theorem shakeHands_settled (ctx : Context) (script : Script) (link : Link)
    (hend : link.source.stop? = none) (hsteady : link.sink.Steady) :
    let s := link.source.bytes
    let result := (shakeHands ctx script link).1
    let left := (shakeHands ctx script link).2.1.source.bytes
    let Written (bytes : Bytes) := (shakeHands ctx script link).2.1.sink.output.toList =
      link.sink.output.toList ++ bytes
    (s.length < 4 ∨ s.take 4 = Handshake.magic ∧ s.length < 20 →
      result = .error (.handshake .closed) ∧ Written []) ∧
    (4 ≤ s.length → s.take 4 ≠ Handshake.magic →
      result = .error (.handshake (.badMagic (s.take 4))) ∧ left = s.drop 4 ∧ Written []) ∧
    (s.take 4 = Handshake.magic → 20 ≤ s.length →
      ∃ p : Handshake.Proposals, s.take 20 = Handshake.magic ++ p.bytes ∧ left = s.drop 20 ∧
        (∀ v, script.version? = some v →
          ∀ w, result = .ok w ↔ w = v ∧ v ∈ p.offered) ∧
        (script.version? = none →
          (∀ v, result = .ok v ↔ Version.Greatest p.offered v) ∧
            ((∃ e, result = .error e) ↔ ∀ v ∈ p.offered, v.isSupported = false)) ∧
        (∀ v, result = .ok v → Written (script.reply?.getD [0, 0, v.minor, v.major])) ∧
        (∀ e, result = .error e → Written [0, 0, 0, 0]) ∧
        ∀ (link' : Link) (q : Handshake.Proposals), link'.source.stop? = none →
          link'.sink.Steady → link'.source.bytes.take 20 = Handshake.magic ++ q.bytes →
          (∀ word, word ≠ 0 → (word ∈ p.words ↔ word ∈ q.words)) →
            Handshake.Alike result (shakeHands ctx script link').1) := by
  have hready := Source.ready_eq_bytes hend
  have hstop : Handshake.closedBy link.source.stop = .handshake .closed := by
    rw [Source.stop, hend]
    rfl
  dsimp only
  refine ⟨?_, ?_, ?_⟩
  · intro hcut
    have hspoilt : Handshake.Spoilt link.source (.handshake .closed) := by
      rw [← hstop]
      rw [← hready] at hcut
      rcases hcut with hlt | ⟨hm, hlt⟩
      · exact .cutInMagic hlt
      · exact .cutInWords hm hlt
    obtain ⟨hresult, hsink⟩ := shakeHands_of_spoilt ctx script hspoilt
    exact ⟨hresult, by rw [hsink, List.append_nil]⟩
  · intro hlen hm
    rw [← hready] at hlen hm ⊢
    obtain ⟨hresult, hsink⟩ := shakeHands_of_spoilt ctx script (.badMagic hlen hm)
    refine ⟨hresult, ?_, by rw [hsink, List.append_nil]⟩
    rw [source_shakeHands, Handshake.bytes_of_badMagic hlen hm, hready]
  · intro hm hlen
    obtain ⟨p, htake⟩ := Handshake.exists_bytes_of_magic hm hlen
    have ho := Handshake.opening?_of_take hend htake
    obtain ⟨hresult, hout⟩ := shakeHands_of_steady ctx hsteady ho
    obtain ⟨rest, hr, -, -, hbytes⟩ := Handshake.read_of_opening ho
    refine ⟨p, htake, ?_, ?_, ?_, ?_, ?_, ?_⟩
    · rw [source_shakeHands, hr, hbytes, ← htake]
      exact (List.drop_left' (List.length_take_of_le hlen)).symm
    · intro v hv w
      rw [hresult, hv]
      exact Handshake.negotiate_some_iff
    · intro hv
      rw [hresult, hv]
      exact ⟨fun v ↦ Handshake.negotiate_none_iff, Handshake.negotiate_none_error_iff⟩
    · intro v hv
      rw [hresult] at hv
      rw [hout, hv, ← script.answerTo_eq]
    · intro e he
      rw [hresult] at he
      rw [hout, he]
    · intro link' q hend' hsteady' htake' hwords
      have ho' := Handshake.opening?_of_take hend' htake'
      rw [hresult, (shakeHands_of_steady ctx hsteady' ho').1]
      exact Handshake.negotiate_alike hwords _

/-- A client that sends bytes, the first of them apart. -/
private def opener (bytes : Bytes) : Link where
  source := [.deliver (bytes.take 1), .deliver (bytes.drop 1)]
  sink := .unbounded

/-- A client that proposes 3.0 twice and 4.1 gets 4.1 in either order, and its next byte is left.
One that sends something else than the magic keeps its fifth byte, and one that leaves after the
magic gets nothing. -/
theorem shakeHands_settled_openers :
    let ctx : Context := ⟨.default, "peer"⟩
    let shake (bytes : Bytes) := shakeHands ctx Script.dialogue (opener bytes)
    let p : Handshake.Proposals := ⟨3, 0, 260, 3⟩
    let q : Handshake.Proposals := ⟨260, 3, 260, 260⟩
    (shake (Handshake.magic ++ p.bytes ++ [7])).1 = .ok ⟨4, 1⟩ ∧
      (shake (Handshake.magic ++ p.bytes ++ [7])).2.1.sink.output.toList = [0, 0, 1, 4] ∧
      (shake (Handshake.magic ++ p.bytes ++ [7])).2.1.source.bytes = [7] ∧
      Handshake.Alike (shake (Handshake.magic ++ p.bytes ++ [7])).1
        (shake (Handshake.magic ++ q.bytes)).1 ∧
      (shake [1, 2, 3, 4, 5]).1 = .error (.handshake (.badMagic [1, 2, 3, 4])) ∧
      (shake [1, 2, 3, 4, 5]).2.1.source.bytes = [5] ∧
      (shake Handshake.magic).1 = .error (.handshake .closed) ∧
      (shake Handshake.magic).2.1.sink.output.toList = [] := by
  intro ctx shake p q
  have settled (bytes : Bytes) :=
    shakeHands_settled ctx Script.dialogue (opener bytes) rfl Sink.steady_unbounded
  obtain ⟨-, -, hopened⟩ := settled (Handshake.magic ++ p.bytes ++ [7])
  obtain ⟨p', htake, hleft, -, hchoice, hok, -, halike⟩ := hopened rfl (by decide)
  have hbytes : Handshake.magic ++ p.bytes = Handshake.magic ++ p'.bytes := htake
  obtain rfl : p = p' := Handshake.Proposals.bytes_inj (List.append_cancel_left hbytes)
  have hresult : (shake (Handshake.magic ++ p.bytes ++ [7])).1 = .ok ⟨4, 1⟩ :=
    ((hchoice rfl).1 ⟨4, 1⟩).mpr ⟨by decide, by decide, by decide⟩
  obtain ⟨-, hstrange, -⟩ := settled [1, 2, 3, 4, 5]
  obtain ⟨hbad, hfifth, -⟩ := hstrange (by decide) (by decide)
  obtain ⟨hcut, -, -⟩ := settled Handshake.magic
  obtain ⟨hclosed, hnothing⟩ := hcut (.inr (by decide))
  refine ⟨hresult, hok _ hresult, hleft, ?_, hbad, hfifth, hclosed, hnothing⟩
  apply halike (opener (Handshake.magic ++ q.bytes)) q rfl Sink.steady_unbounded rfl
  intro word hword
  simp only [p, q, Handshake.Proposals.words, List.mem_cons, List.not_mem_nil, hword, or_false,
    false_or]
  constructor
  · rintro (h | h | h)
    · exact .inr (.inl h)
    · exact .inl h
    · exact .inr (.inl h)
  · rintro (h | h | h | h)
    · exact .inr (.inl h)
    · exact .inl h
    · exact .inr (.inl h)
    · exact .inr (.inl h)

end Session

end ScriptedBolt
