import Mathlib.Data.List.Forall2
import Mathlib.Data.List.TakeWhile
import ScriptedBolt.Proofs.Session.Taking

/-!
# Passages

What lies between two points of a connection while cues are followed. A `Passage` names the cues
that were taken in full, with the frame of each message among them, and what was done besides:
bytes that were read to no avail, or the part of an action that was written. Each step of a
session lengthens the passage by a cue, and every way to end leaves one behind.
-/

namespace ScriptedBolt.Session

/-- The cues that a session gets to, however it goes: those before the first exit and before the
first message without bytes. -/
def within (settings : Settings) (v : Version) (cues : List Cue) : List Cue :=
  (cues.takeWhile (!·.isExit)).takeWhile (speakable settings v)

/-- Whether a frame brings the message that a line of the client expects. -/
def Heard (v : Version) (script : Script) (e : Expect) (frame : Bytes) : Prop :=
  ∃ m, Frame.Brings v .client frame m ∧ script.matchesLine e m = true

/-- Whether a connection comes from another one by cues that were taken, with the frames of their
messages, bytes that were read besides, and a part of an action. -/
structure Passage (ctx : Context) (v : Version) (script : Script) (link : Link)
    (done : List Cue) (frames : List Bytes) (lost part : Bytes) (after : Link) : Prop where
  heard : List.Forall₂ (Heard v script) (Cue.expects done) frames
  source : link.source.bytes = frames.flatten ++ lost ++ after.source.bytes
  output : after.sink.output.toList =
    link.sink.output.toList ++ spoken ctx.settings v done ++ part

variable {ctx : Context} {v : Version} {script : Script} {link after : Link} {cue : Cue}
  {cues : List Cue}

/-! ### The cues within reach -/

/-- What is written at a cue comes before what is written at those behind it. -/
theorem spoken_cons {bytes : Bytes} (h : lineBytes ctx.settings v cue = .ok bytes)
    (cues : List Cue) :
    spoken ctx.settings v (cue :: cues) = bytes ++ spoken ctx.settings v cues := by
  rw [spoken, List.flatMap_cons, h]
  rfl

/-- What is written at cues comes before what is written at those behind them. -/
theorem spoken_append (settings : Settings) (v : Version) (cues more : List Cue) :
    spoken settings v (cues ++ more) = spoken settings v cues ++ spoken settings v more :=
  List.flatMap_append

private theorem within_cons {bytes : Bytes} (hx : cue.isExit = false)
    (h : lineBytes ctx.settings v cue = .ok bytes) (cues : List Cue) :
    within ctx.settings v (cue :: cues) = cue :: within ctx.settings v cues := by
  have hs : speakable ctx.settings v cue = true := by
    rw [speakable, h]
    rfl
  rw [within, List.takeWhile_cons_of_pos (by simp [hx]), List.takeWhile_cons_of_pos hs]
  rfl

/-- A cue that is taken in full is within reach. -/
theorem within_of_taken (h : Taken ctx v script link cue (.ok after)) (cues : List Cue) :
    within ctx.settings v (cue :: cues) = cue :: within ctx.settings v cues := by
  cases h with
  | matched hb hs hm => exact within_cons rfl rfl cues
  | performed hx hb ho => exact within_cons hx hb cues

/-! ### Steps -/

/-- A connection is reached from itself. -/
theorem Passage.refl (ctx : Context) (v : Version) (script : Script) (link : Link) :
    Passage ctx v script link [] [] [] [] link where
  heard := .nil
  source := rfl
  output := by simp [spoken]

/-- A cue that is taken in full comes before the passage behind it. -/
theorem Passage.cons {next : Link} {done : List Cue} {frames : List Bytes} {lost part : Bytes}
    (h : Taken ctx v script link cue (.ok next))
    (hp : Passage ctx v script next done frames lost part after) :
    ∃ before, Passage ctx v script link (cue :: done) (before ++ frames) lost part after := by
  cases h with
  | matched hb hs hm =>
    refine ⟨[_], .cons ⟨_, hb, hm⟩ hp.heard, ?_, ?_⟩
    · rw [hs, hp.source]
      simp only [List.singleton_append, List.flatten_cons, List.append_assoc]
    · rw [spoken_cons rfl]
      exact hp.output
  | performed hx hb ho =>
    refine ⟨[], hp.heard, hp.source, ?_⟩
    rw [hp.output, ho, spoken_cons hb]
    simp only [List.append_assoc]

/-! ### Whole runs -/

/-- At every point of a run some cues within reach are taken, and of the next one at most a part
is written. -/
theorem passage_of_footsteps (h : after ∈ footsteps ctx v script cues link) :
    ∃ done rest frames lost part, within ctx.settings v cues = done ++ rest ∧
      part <+: spoken ctx.settings v (rest.take 1) ∧
      Passage ctx v script link done frames lost part after := by
  induction cues generalizing link with
  | nil => simp [footsteps] at h
  | cons cue cues ih =>
    have htaken := taken ctx v script (cues.length + 1) link cue
    have stays {lost : Bytes} {rest : Source}
        (hs : link.source.bytes = lost ++ rest.bytes) :
        Passage ctx v script link [] [] lost [] { link with source := rest } :=
      ⟨.nil, hs, by simp [spoken]⟩
    rw [footsteps] at h
    cases ht : take ctx v script (cues.length + 1) link cue with
    | ok next =>
      rw [ht] at h htaken
      have hreach := within_of_taken htaken cues
      rcases List.mem_cons.mp h with rfl | h
      · obtain ⟨frames, hp⟩ := Passage.cons htaken (.refl ctx v script after)
        exact ⟨[cue], _, _, _, _, hreach, List.nil_prefix, hp⟩
      · obtain ⟨done, rest, frames, lost, part, hw, hpart, hp⟩ := ih h
        obtain ⟨before, hp⟩ := Passage.cons htaken hp
        exact ⟨cue :: done, rest, _, lost, part, by rw [hreach, hw, List.cons_append], hpart, hp⟩
    | error ended =>
      rw [ht] at h htaken
      obtain rfl := List.mem_singleton.mp h
      cases htaken with
      | mismatched hb hs hm => exact ⟨[], _, _, _, _, rfl, List.nil_prefix, stays hs⟩
      | unheard hs hf =>
        obtain ⟨lost, hs⟩ := hs
        exact ⟨[], _, _, _, _, rfl, List.nil_prefix, stays hs.symm⟩
      | exited hx => exact ⟨[], _, _, _, _, rfl, List.nil_prefix, .refl ..⟩
      | unspeakable hx hb => exact ⟨[], _, _, _, _, rfl, List.nil_prefix, .refl ..⟩
      | @refused r bytes part sink reason hx hb hp ho =>
        refine ⟨[], _, [], [], part, within_cons hx hb cues, ?_, .nil, rfl, ?_⟩
        · rw [List.take_succ_cons, List.take_zero, spoken_cons hb]
          exact hp.trans (List.prefix_append ..)
        · rw [ho]
          simp [spoken]

/-- A run that completes has taken all cues before the exit. -/
theorem passage_of_completed (h : follow ctx v script cues link = (.completed, after)) :
    (∀ cue ∈ cues.takeWhile (!·.isExit), speakable ctx.settings v cue = true) ∧
      ∃ frames, Passage ctx v script link (cues.takeWhile (!·.isExit)) frames [] [] after := by
  induction cues generalizing link with
  | nil =>
    obtain rfl : link = after := by simpa [follow] using h
    exact ⟨by simp, [], .refl ..⟩
  | cons cue cues ih =>
    have htaken := taken ctx v script (cues.length + 1) link cue
    rw [follow] at h
    cases ht : take ctx v script (cues.length + 1) link cue with
    | ok next =>
      rw [ht] at h htaken
      obtain ⟨hall, frames, hp⟩ := ih h
      obtain ⟨before, hp⟩ := Passage.cons htaken hp
      have hcue : cue.isExit = false ∧ speakable ctx.settings v cue = true := by
        cases htaken with
        | matched hb hs hm => exact ⟨rfl, rfl⟩
        | performed hx hb ho => exact ⟨hx, by rw [speakable, hb]; rfl⟩
      rw [List.takeWhile_cons_of_pos (by simp [hcue.1])]
      refine ⟨?_, _, hp⟩
      intro c hc
      rcases List.mem_cons.mp hc with rfl | hc
      · exact hcue.2
      · exact hall c hc
    | error ended =>
      rw [ht] at h htaken
      obtain rfl : ended = (.completed, after) := h
      cases htaken with
      | exited hx =>
        rw [List.takeWhile_cons_of_neg (by simp [hx])]
        exact ⟨by simp, [], .refl ..⟩

/-- A run that ends with a mismatch has taken the cues before the line that is not matched, and
read the message that does not match it. -/
theorem passage_of_mismatch {e : Expect} {m : Message}
    (h : follow ctx v script cues link = (.failed (.mismatch e m), after)) :
    ∃ done rest frames frame, within ctx.settings v cues = done ++ .hear e :: rest ∧
      Frame.Brings v .client frame m ∧ script.matchesLine e m = false ∧
      Passage ctx v script link done frames frame [] after := by
  induction cues generalizing link with
  | nil => simp [follow] at h
  | cons cue cues ih =>
    have htaken := taken ctx v script (cues.length + 1) link cue
    rw [follow] at h
    cases ht : take ctx v script (cues.length + 1) link cue with
    | ok next =>
      rw [ht] at h htaken
      obtain ⟨done, rest, frames, frame, hw, hb, hm, hp⟩ := ih h
      obtain ⟨before, hp⟩ := Passage.cons htaken hp
      refine ⟨cue :: done, rest, _, frame, ?_, hb, hm, hp⟩
      rw [within_of_taken htaken, hw, List.cons_append]
    | error ended =>
      rw [ht] at h htaken
      obtain rfl : ended = (.failed (.mismatch e m), after) := h
      cases htaken with
      | @mismatched _ _ frame rest hb hs hm =>
        refine ⟨[], _, [], frame, within_cons rfl rfl cues, hb, hm, .nil, hs, ?_⟩
        simp [spoken]
      | unheard hs hf => exact absurd rfl (hf e m)

end ScriptedBolt.Session
