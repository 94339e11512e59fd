import SchemaLint.Sdl.Parser.Document

/-!
# What reading can do, step by step

A production only ever makes moves of a few kinds: it passes over the current
token, keeps it as a name or as the start of a directive, drops it without a
trace, notes a fault or falls silent about faults. A path is a run of such moves
together with the marks that it keeps. Everything that is said later about
positions, names and faults of a reading is an induction over paths.
-/

namespace SchemaLint.Sdl

/-- What a kept token leaves in the result. -/
inductive Mark
  | name (n : Name)
  | directive (offset : Nat)

def Mark.offset : Mark → Nat
  | .name n => n.offset
  | .directive offset => offset

/-- The mark of a token that can be kept, after `dropped` bytes went lost. -/
def Token.mark? (dropped : Nat) (t : Token) : Option Mark :=
  if t.kind = .name then some (.name ⟨t.text, t.offset - dropped⟩)
  else if t.kind = .atSign then some (.directive (t.offset - dropped))
  else none

inductive Move : State → List Mark → State → Prop
  | pass (s : State) : Move s [] { s with ahead := s.ahead.tail }
  | keep {s : State} {t : Token} {rest : List Token} {m : Mark} (h : s.ahead = t :: rest)
      (hm : t.mark? s.dropped = some m) : Move s [m] { s with ahead := rest }
  | note {s : State} (h : s.muted = false) (f : LocatedFault) :
      Move s [] { s with faults := f :: s.faults }
  | mute {s : State} (h : s.faults ≠ []) : Move s [] { s with muted := true }
  | drop {s : State} {t : Token} {rest : List Token} (h : s.ahead = t :: rest)
      (hf : s.faults ≠ [] ∨ s.muted = true) :
      Move s [] { s with ahead := rest, dropped := s.dropped + t.text.utf8ByteSize }

inductive Path : State → List Mark → State → Prop
  | nil (s : State) : Path s [] s
  | cons {s t u : State} {ms ns : List Mark} (move : Move s ms t) (path : Path t ns u) :
      Path s (ms ++ ns) u

namespace Path

variable {s t u : State} {ms ns : List Mark}

theorem single (h : Move s ms t) : Path s ms t := by
  simpa using Path.cons h (.nil t)

theorem trans (h : Path s ms t) (k : Path t ns u) : Path s (ms ++ ns) u := by
  induction h with
  | nil _ => exact k
  | cons move _ ih => rw [List.append_assoc]; exact .cons move (ih k)

end Path

/-- A kept mark may be forgotten: the same token can be passed over. -/
theorem Move.forget {s t : State} {ms ns : List Mark} (h : Move s ms t) (hn : ns.Sublist ms) :
    Move s ns t := by
  cases h with
  | keep hs hm =>
    rcases List.sublist_cons_iff.mp hn with hn | ⟨r, rfl, hr⟩
    · have hp := Move.pass s
      rw [hs] at hp
      rwa [List.sublist_nil.mp hn]
    · rw [List.sublist_nil.mp hr]
      exact .keep hs hm
  | pass | note | mute | drop =>
    rw [List.sublist_nil.mp hn]
    constructor <;> assumption

theorem Path.forget {s t : State} {ms ns : List Mark} (h : Path s ms t) (hn : ns.Sublist ms) :
    Path s ns t := by
  induction h generalizing ns with
  | nil s => rw [List.sublist_nil.mp hn]; exact .nil s
  | cons move _ ih =>
    obtain ⟨as, bs, rfl, ha, hb⟩ := List.sublist_append_iff.mp hn
    exact .cons (move.forget ha) (ih hb)

/-! ## Invariants of paths -/

/-- Bytes get lost, and faults are passed over in silence, only after a fault. -/
structure State.Honest (s : State) : Prop where
  muted : s.muted = true → s.faults ≠ []
  dropped : s.dropped ≠ 0 → s.faults ≠ []

theorem State.honest_start (ts : List Token) : (State.start ts).Honest :=
  ⟨fun h => absurd h Bool.false_ne_true, fun h => absurd rfl h⟩

theorem Move.honest {s t : State} {ms : List Mark} (h : Move s ms t) (hs : s.Honest) :
    t.Honest := by
  cases h with
  | pass | keep => exact ⟨hs.muted, hs.dropped⟩
  | note => exact ⟨fun _ => List.cons_ne_nil _ _, fun _ => List.cons_ne_nil _ _⟩
  | mute hf => exact ⟨fun _ => hf, hs.dropped⟩
  | drop _ hf => exact ⟨hs.muted, fun _ => hf.elim id hs.muted⟩

theorem Move.faults {s t : State} {ms : List Mark} (h : Move s ms t) : s.faults <:+ t.faults := by
  cases h with
  | note => exact List.suffix_cons _ _
  | pass | keep | mute | drop => exact List.suffix_refl _

/-- Faults that were noted stay. -/
theorem Path.faults {s t : State} {ms : List Mark} (h : Path s ms t) : s.faults <:+ t.faults := by
  induction h with
  | nil => exact List.suffix_refl _
  | cons move _ ih => exact move.faults.trans ih

theorem Path.faults_eq_nil {s t : State} {ms : List Mark} (h : Path s ms t)
    (ht : t.faults = []) : s.faults = [] :=
  List.suffix_nil.mp (ht ▸ h.faults)

end SchemaLint.Sdl
