import Mathlib

/-!
# Frames in nesting order

Events that open and close frames, events that may stand anywhere, and events that may
stand only where no frame is open. A stack of the open frames tells whether a list of
events keeps to that (`track`); what it accepts has the shape of a word of brackets
(`Exited`).
-/

namespace Data

/-- What an event does to the open frames. -/
inductive Mark (ι : Type) where
  | enter (i : ι)
  | leave (i : ι)
  | free
  | outer

namespace Nesting

variable {ε ι : Type} (mark : ε → Mark ι)

/-- The events inside a frame: every frame that is opened is closed. -/
inductive Enclosed : List ε → Prop where
  | nil : Enclosed []
  | free {e : ε} {rest : List ε} (h : mark e = .free) (hrest : Enclosed rest) : Enclosed (e :: rest)
  | frame {i : ι} {e e' : ε} {body rest : List ε} (h : mark e = .enter i) (hbody : Enclosed body)
      (h' : mark e' = .leave i) (hrest : Enclosed rest) : Enclosed (e :: (body ++ e' :: rest))

/-- The events where no frame is open: every frame that is opened is closed, with none
of the outer events in between. Leaving a frame that is not open means nothing. -/
inductive Exited : List ε → Prop where
  | nil : Exited []
  | free {e : ε} {rest : List ε} (h : mark e = .free) (hrest : Exited rest) : Exited (e :: rest)
  | outer {e : ε} {rest : List ε} (h : mark e = .outer) (hrest : Exited rest) : Exited (e :: rest)
  | stray {i : ι} {e : ε} {rest : List ε} (h : mark e = .leave i) (hrest : Exited rest) :
      Exited (e :: rest)
  | frame {i : ι} {e e' : ε} {body rest : List ε} (h : mark e = .enter i)
      (hbody : Enclosed mark body) (h' : mark e' = .leave i) (hrest : Exited rest) :
      Exited (e :: (body ++ e' :: rest))

variable [DecidableEq ι]

/-- The open frames behind an event, innermost first; `none` when it breaks the order. -/
def track (stack : List ι) (e : ε) : Option (List ι) :=
  match mark e, stack with
  | .enter i, stack => some (i :: stack)
  | .leave _, [] => some []
  | .leave i, j :: stack => if j = i then some stack else none
  | .free, stack => some stack
  | .outer, [] => some []
  | .outer, _ :: _ => none

def tracked (events : List ε) : Option (List ι) := events.foldlM (track mark) []

theorem tracked_concat (events : List ε) (e : ε) :
    tracked mark (events ++ [e]) = (tracked mark events).bind fun stack => track mark stack e := by
  rw [tracked, List.foldlM_append]
  simp [tracked]

variable {mark}

/-- The events close the frames of a stack, one after the other. -/
def Closes (mark : ε → Mark ι) : List ι → List ε → Prop
  | [], events => Exited mark events
  | i :: stack, events => ∃ body e rest, events = body ++ e :: rest ∧ mark e = .leave i ∧
      Enclosed mark body ∧ Closes mark stack rest

theorem closes_of_track {events : List ε} {stack : List ι}
    (h : events.foldlM (track mark) stack = some []) : Closes mark stack events := by
  induction events generalizing stack with
  | nil =>
    obtain rfl : stack = [] := Option.some.inj h
    exact .nil
  | cons e events ih =>
    rw [List.foldlM_cons, Option.bind_eq_bind, Option.bind_eq_some_iff] at h
    obtain ⟨stack', hstep, hrest⟩ := h
    have hcloses := ih hrest
    cases hmark : mark e with
    | enter i =>
      -- the frame that is opened is closed before those of the stack
      simp only [track, hmark, Option.some.injEq] at hstep
      subst hstep
      obtain ⟨body, e', rest, rfl, hleave, hbody, hclosed⟩ := hcloses
      cases stack with
      | nil => exact .frame hmark hbody hleave hclosed
      | cons j stack =>
        obtain ⟨body', e'', rest', rfl, hleave', hbody', hclosed'⟩ := hclosed
        refine ⟨e :: (body ++ e' :: body'), e'', rest', ?_, hleave',
          .frame hmark hbody hleave hbody', hclosed'⟩
        simp
    | leave i =>
      cases stack with
      | nil =>
        simp only [track, hmark, Option.some.injEq] at hstep
        subst hstep
        exact .stray hmark hcloses
      | cons j stack =>
        simp only [track, hmark, Option.ite_none_right_eq_some, Option.some.injEq] at hstep
        obtain ⟨rfl, rfl⟩ := hstep
        exact ⟨[], e, events, rfl, hmark, .nil, hcloses⟩
    | free =>
      simp only [track, hmark, Option.some.injEq] at hstep
      subst hstep
      cases stack with
      | nil => exact .free hmark hcloses
      | cons j stack =>
        obtain ⟨body, e', rest, rfl, hleave, hbody, hclosed⟩ := hcloses
        exact ⟨e :: body, e', rest, rfl, hleave, .free hmark hbody, hclosed⟩
    | outer =>
      cases stack with
      | nil =>
        simp only [track, hmark, Option.some.injEq] at hstep
        subst hstep
        exact .outer hmark hcloses
      | cons j stack => simp [track, hmark] at hstep

theorem exited_of_tracked {events : List ε} (h : tracked mark events = some []) :
    Exited mark events := closes_of_track h

end Nesting

end Data
