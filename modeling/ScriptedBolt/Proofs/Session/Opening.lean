import ScriptedBolt.Proofs.Handshake.Opening
import ScriptedBolt.Proofs.Wire.Acceptance
import ScriptedBolt.Session

/-!
# Shaking hands

What the handshake of a session does to its connection: nothing is written while the opening of
the client is read, and then one reply at most. `Refused` says why a handshake does not succeed,
with its error, in terms of what the source delivers, what is proposed and what the sink accepts.
-/

namespace ScriptedBolt

/-- The bytes that answer the proposals once a version is chosen. -/
def Script.answerTo (s : Script) (v : Version) : Bytes :=
  s.reply?.getD (Handshake.wordBytes v.toWord)

namespace Session

/-- Why a handshake does not succeed, with its error. -/
inductive Refused (script : Script) (link : Link) : Error → Prop
  /-- The client does not make its opening. -/
  | spoilt {e : Error} (h : Handshake.Spoilt link.source e) : Refused script link e
  /-- None of the versions proposed can be chosen. -/
  | disagreed {p : Handshake.Proposals} {e : Error}
    (ho : Handshake.opening? link.source = some p)
    (hn : Handshake.negotiate p script.version? = .error e) : Refused script link e
  /-- The reply cannot be written. -/
  | unanswered {p : Handshake.Proposals} {v : Version} {f : Fault}
    (ho : Handshake.opening? link.source = some p)
    (hn : Handshake.negotiate p script.version? = .ok v)
    (hw : (link.sink.send (script.answerTo v)).1 = .error f) : Refused script link (.io f)

variable {script : Script} {link : Link}

/-- A handshake reads the opening and nothing else. -/
theorem source_shakeHands (ctx : Context) (script : Script) (link : Link) :
    (shakeHands ctx script link).2.1.source = (Handshake.read link.source).2 := by
  unfold shakeHands
  cases Handshake.read link.source with
  | mk result rest =>
    cases result with
    | error e => rfl
    | ok p =>
      dsimp only
      cases Handshake.negotiate p script.version? with
      | error e => rfl
      | ok v =>
        simp only [answer, Handshake.sendReply]
        cases link.sink.send (script.reply?.getD (Handshake.wordBytes v.toWord)) with
        | mk result sink => cases result <;> rfl

/-- A handshake whose opening is spoilt fails with the same error, and nothing is written. -/
theorem shakeHands_of_spoilt (ctx : Context) (script : Script) {e : Error}
    (h : Handshake.Spoilt link.source e) :
    (shakeHands ctx script link).1 = .error e ∧
      (shakeHands ctx script link).2.1.sink = link.sink := by
  have hr := Handshake.read_of_spoilt h
  unfold shakeHands
  cases hread : Handshake.read link.source with
  | mk result rest =>
    rw [hread] at hr
    obtain rfl := hr
    exact ⟨rfl, rfl⟩

/-- Without a version to speak, the word zero is written as far as the sink accepts it. -/
theorem shakeHands_of_disagreed (ctx : Context) {p : Handshake.Proposals} {e : Error}
    (ho : Handshake.opening? link.source = some p)
    (hn : Handshake.negotiate p script.version? = .error e) :
    (shakeHands ctx script link).1 = .error e ∧
      (shakeHands ctx script link).2.1.sink = (link.sink.send [0, 0, 0, 0]).2 := by
  obtain ⟨rest, hr, -⟩ := Handshake.read_of_opening ho
  simp only [shakeHands, hr, hn, true_and]
  rfl

/-- With a version to speak, the handshake is as good as its reply. What follows the opening is
left to be read. -/
theorem shakeHands_of_agreed (ctx : Context) {p : Handshake.Proposals} {v : Version}
    (ho : Handshake.opening? link.source = some p)
    (hn : Handshake.negotiate p script.version? = .ok v) :
    ∃ rest : Source, rest.ready = link.source.ready.drop 20 ∧
      link.source.bytes = Handshake.magic ++ p.bytes ++ rest.bytes ∧
      (shakeHands ctx script link).2.1 = ⟨rest, (link.sink.send (script.answerTo v)).2⟩ ∧
      (∀ f, (link.sink.send (script.answerTo v)).1 = .error f →
        (shakeHands ctx script link).1 = .error (.io f)) ∧
      ((link.sink.send (script.answerTo v)).1 = .ok () →
        (shakeHands ctx script link).1 = .ok v) := by
  obtain ⟨rest, hr, hready, -, hbytes⟩ := Handshake.read_of_opening ho
  refine ⟨rest, hready, hbytes, ?_⟩
  simp only [shakeHands, hr, hn, answer, Handshake.sendReply, Script.answerTo]
  cases link.sink.send (script.reply?.getD (Handshake.wordBytes v.toWord)) with
  | mk result sink =>
    cases result with
    | ok u => exact ⟨rfl, by simp, fun _ ↦ rfl⟩
    | error f => exact ⟨rfl, fun g hg ↦ Except.error.inj hg ▸ rfl, by simp⟩

/-- A handshake whose opening is made leaves the stop of the source as it is. -/
theorem stop?_shakeHands (ctx : Context) (script : Script) {p : Handshake.Proposals}
    (ho : Handshake.opening? link.source = some p) :
    (shakeHands ctx script link).2.1.source.stop? = link.source.stop? := by
  obtain ⟨rest, hr, -, hstop, -⟩ := Handshake.read_of_opening ho
  rw [source_shakeHands, hr]
  exact hstop

/-- A handshake fails with exactly the errors it is refused for. -/
theorem shakeHands_error_iff (ctx : Context) {e : Error} :
    (shakeHands ctx script link).1 = .error e ↔ Refused script link e := by
  constructor
  · intro h
    cases ho : Handshake.opening? link.source with
    | none =>
      obtain ⟨e', hs⟩ := Handshake.opening?_eq_none_iff.mp ho
      rw [(shakeHands_of_spoilt ctx script hs).1] at h
      exact Except.error.inj h ▸ .spoilt hs
    | some p =>
      cases hn : Handshake.negotiate p script.version? with
      | error e' =>
        rw [(shakeHands_of_disagreed ctx ho hn).1] at h
        exact Except.error.inj h ▸ .disagreed ho hn
      | ok v =>
        obtain ⟨rest, -, -, -, herr, hok⟩ := shakeHands_of_agreed ctx ho hn
        cases hw : (link.sink.send (script.answerTo v)).1 with
        | error f =>
          rw [herr f hw] at h
          exact Except.error.inj h ▸ .unanswered ho hn hw
        | ok u =>
          rw [hok hw] at h
          simp at h
  · intro h
    cases h with
    | spoilt hs => exact (shakeHands_of_spoilt ctx script hs).1
    | disagreed ho hn => exact (shakeHands_of_disagreed ctx ho hn).1
    | unanswered ho hn hw =>
      obtain ⟨rest, -, -, -, herr, -⟩ := shakeHands_of_agreed ctx ho hn
      exact herr _ hw

/-- A handshake that succeeds speaks a version chosen among those proposed. -/
theorem agreed_of_shakeHands (ctx : Context) {v : Version}
    (h : (shakeHands ctx script link).1 = .ok v) :
    ∃ p, Handshake.opening? link.source = some p ∧
      Handshake.negotiate p script.version? = .ok v ∧
      (link.sink.send (script.answerTo v)).1 = .ok () := by
  cases ho : Handshake.opening? link.source with
  | none =>
    obtain ⟨e, hs⟩ := Handshake.opening?_eq_none_iff.mp ho
    rw [(shakeHands_of_spoilt ctx script hs).1] at h
    simp at h
  | some p =>
    cases hn : Handshake.negotiate p script.version? with
    | error e =>
      rw [(shakeHands_of_disagreed ctx ho hn).1] at h
      simp at h
    | ok w =>
      obtain ⟨rest, -, -, -, herr, hok⟩ := shakeHands_of_agreed ctx ho hn
      cases hw : (link.sink.send (script.answerTo w)).1 with
      | error f =>
        rw [herr f hw] at h
        simp at h
      | ok u =>
        rw [hok hw] at h
        obtain rfl := Except.ok.inj h
        exact ⟨p, rfl, hn, hw⟩

end Session

end ScriptedBolt
