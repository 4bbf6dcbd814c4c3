import Mathlib.Data.List.Infix

namespace Frames
set_option autoImplicit true

/-! ### Markers and frames

A marker is three elements `x`; a frame ends in another element and a marker. -/

theorem marked_concat {x q : α} (h : q ≠ x) (l : List α) :
    [x, x, x] <:+: l ++ [q] ↔ [x, x, x] <:+: l := by
  constructor
  · intro hm
    rcases List.infix_concat_iff.1 hm with hs | hm
    · obtain ⟨l', he⟩ := hs
      have hlast : x = q := by
        have he' : (l' ++ [x, x]) ++ [x] = l ++ [q] := by
          rw [List.append_assoc]
          exact he
        exact List.singleton_inj.1 (List.append_inj' he' rfl).2
      exact absurd hlast.symm h
    · exact hm
  · exact fun hm => hm.trans (List.prefix_append l [q]).isInfix

theorem marked_append {x : α} {p : List α} (h : x ∉ p) (l : List α) :
    [x, x, x] <:+: p ++ l ↔ [x, x, x] <:+: l := by
  induction p with
  | nil => exact Iff.rfl
  | cons a p ih =>
    obtain ⟨ha, hp⟩ := not_or.1 (fun hm => h (List.mem_cons.2 hm))
    rw [List.cons_append, List.infix_cons_iff, ih hp]
    exact or_iff_right fun hpre => ha (List.cons_prefix_cons.1 hpre).1

def stream (x q : α) (ls : List (List α)) : List α := ls.flatMap fun l => l ++ [q, x, x, x]

theorem stream_cons (x q : α) (l : List α) (ls : List (List α)) :
    stream x q (l :: ls) = l ++ q :: x :: x :: x :: stream x q ls := by
  rw [stream, List.flatMap_cons, List.append_assoc]
  rfl

/-! ### The pieces between markers -/

/-- What is read behind an unfinished piece. -/
def behind (r : List α) : List (List α) × List α → List (List α) × List α
  | ([], r') => ([], r ++ r')
  | (p :: ps, r') => ((r ++ p) :: ps, r')

theorem behind_behind (r s : List α) (v : List (List α) × List α) :
    behind r (behind s v) = behind (r ++ s) v := by
  obtain ⟨_ | ⟨p, ps⟩, t⟩ := v
  · rw [behind, behind, behind, List.append_assoc]
  · rw [behind, behind, behind, List.append_assoc]

theorem behind_fst_eq_nil {v : List (List α) × List α} : (behind r v).1 = [] ↔ v.1 = [] := by
  obtain ⟨_ | ⟨p, ps⟩, t⟩ := v
  · exact Iff.rfl
  · exact iff_of_false (List.cons_ne_nil _ _) (List.cons_ne_nil _ _)

/-- Two parts that are read one after the other. -/
def glue (u v : List (List α) × List α) : List (List α) × List α :=
  (u.1 ++ (behind u.2 v).1, (behind u.2 v).2)

theorem behind_glue (r : List α) (u v : List (List α) × List α) :
    behind r (glue u v) = glue (behind r u) v := by
  obtain ⟨_ | ⟨p, ps⟩, t⟩ := u
  · exact behind_behind r t v
  · rfl

section Split
variable [DecidableEq α] {x : α}

/-- The pieces that end in three elements `x`, which are left out, and what is behind the last
one. -/
def split (x : α) : List α → List (List α) × List α
  | a :: b :: c :: l =>
    if a = x ∧ b = x ∧ c = x then ([] :: (split x l).1, (split x l).2)
    else behind [a] (split x (b :: c :: l))
  | l => ([], l)

theorem split_marker (x : α) (l : List α) :
    split x (x :: x :: x :: l) = ([] :: (split x l).1, (split x l).2) := by
  rw [split, if_pos ⟨rfl, rfl, rfl⟩]

theorem split_unmarked (h : ¬(a = x ∧ b = x ∧ c = x)) (l : List α) :
    split x (a :: b :: c :: l) = behind [a] (split x (b :: c :: l)) := by
  rw [split, if_neg h]

theorem split_cons (h : a ≠ x) (l : List α) : split x (a :: l) = behind [a] (split x l) := by
  match l with
  | [] => rfl
  | [b] => rfl
  | b :: c :: l => exact split_unmarked (fun hm => h hm.1) l

theorem split_cons_cons (h : b ≠ x) (a : α) (l : List α) :
    split x (a :: b :: l) = behind [a] (split x (b :: l)) := by
  cases l with
  | nil => rfl
  | cons c l => exact split_unmarked (fun hm => h hm.2.1) l

theorem split_append (h : q ≠ x) (l rest : List α) :
    split x (l ++ q :: rest) = glue (split x (l ++ [q])) (split x rest) := by
  induction l using split.induct x with
  | case1 a b c l hm ih =>
    obtain ⟨ha, hb, hc⟩ := hm
    rw [ha, hb, hc]
    change split x (x :: x :: x :: (l ++ q :: rest)) = glue (split x (x :: x :: x :: (l ++ [q]))) _
    rw [split_marker, split_marker, ih]
    rfl
  | case2 a b c l hm ih =>
    change split x (a :: b :: c :: (l ++ q :: rest)) = glue (split x (a :: b :: c :: (l ++ [q]))) _
    rw [split_unmarked hm, split_unmarked hm, ← behind_glue]
    exact congrArg (behind [a]) ih
  | case3 l hl =>
    match l, hl with
    | [], _ => exact split_cons h rest
    | [a], _ =>
      change split x (a :: q :: rest) = glue ([], [a, q]) _
      rw [split_cons_cons h, split_cons h, behind_behind]
      rfl
    | [a, b], _ =>
      have hm : ¬(a = x ∧ b = x ∧ q = x) := fun hm => h hm.2.2
      change split x (a :: b :: q :: rest) = glue (split x (a :: b :: q :: [])) _
      rw [split_unmarked hm, split_unmarked hm, split_cons_cons h, split_cons h, behind_behind,
        behind_behind]
      rfl
    | a :: b :: c :: l, hl => exact absurd rfl (hl a b c l)

theorem split_fst_eq_nil {l : List α} : (split x l).1 = [] ↔ ¬[x, x, x] <:+: l := by
  induction l using split.induct x with
  | case1 a b c l hm ih =>
    obtain ⟨ha, hb, hc⟩ := hm
    rw [ha, hb, hc, split_marker]
    exact iff_of_false (List.cons_ne_nil _ _) (not_not.2 ⟨[], l, rfl⟩)
  | case2 a b c l hm ih =>
    have hpre : ¬[x, x, x] <+: a :: b :: c :: l := by
      simp only [List.cons_prefix_cons, List.nil_prefix, and_true]
      exact fun h => hm ⟨h.1.symm, h.2.1.symm, h.2.2.symm⟩
    rw [split_unmarked hm, behind_fst_eq_nil, List.infix_cons_iff, not_or, ih]
    exact (and_iff_right hpre).symm
  | case3 l hl =>
    have hshort : ¬[x, x, x] <:+: l := by
      intro hm
      match l, hl, hm.length_le with
      | a :: b :: c :: l, hl, _ => exact hl a b c l rfl
    rw [split]
    · exact iff_of_true rfl hshort
    · exact hl

theorem split_of_fst_nil {l : List α} (h : (split x l).1 = []) : split x l = ([], l) := by
  induction l using split.induct x with
  | case1 a b c l hm ih =>
    obtain ⟨ha, hb, hc⟩ := hm
    rw [ha, hb, hc, split_marker] at h
    exact absurd h (List.cons_ne_nil _ _)
  | case2 a b c l hm ih =>
    rw [split_unmarked hm] at h ⊢
    rw [ih (behind_fst_eq_nil.1 h)]
    rfl
  | case3 l hl =>
    rw [split]
    exact hl

/-- A frame is divided by the markers in it, and what follows is read by itself. -/
theorem split_frame (h : q ≠ x) (l rest : List α) :
    split x (l ++ q :: x :: x :: x :: rest) =
      ((split x (l ++ [q])).1 ++ (split x (l ++ [q])).2 :: (split x rest).1, (split x rest).2) := by
  rw [split_append h, split_marker, glue, behind, List.append_nil]

theorem split_stream_snd (h : q ≠ x) (ls : List (List α)) : (split x (stream x q ls)).2 = [] := by
  induction ls with
  | nil => rfl
  | cons l ls ih => rw [stream_cons, split_frame h, ih]

theorem length_le_split_stream (h : q ≠ x) (ls : List (List α)) :
    ls.length ≤ (split x (stream x q ls)).1.length := by
  induction ls with
  | nil => exact Nat.zero_le _
  | cons l ls ih =>
    rw [stream_cons, split_frame h, List.length_append, List.length_cons, List.length_cons]
    omega

/-- There are as many pieces as frames exactly if the pieces are the frames. -/
theorem split_stream_iff (h : q ≠ x) (ls : List (List α)) :
    (split x (stream x q ls)).1.length = ls.length ↔ ∀ l ∈ ls, ¬[x, x, x] <:+: l ++ [q] := by
  induction ls with
  | nil => exact iff_of_true rfl (List.forall_mem_nil _)
  | cons l ls ih =>
    have hle := length_le_split_stream h ls
    rw [stream_cons, split_frame h, List.length_append, List.length_cons, List.length_cons,
      List.forall_mem_cons, ← ih, ← split_fst_eq_nil, ← List.length_eq_zero_iff]
    omega

theorem split_stream (h : q ≠ x) {ls : List (List α)} (hm : ∀ l ∈ ls, ¬[x, x, x] <:+: l ++ [q]) :
    split x (stream x q ls) = (ls.map (· ++ [q]), []) := by
  induction ls with
  | nil => rfl
  | cons l ls ih =>
    obtain ⟨hl, hls⟩ := List.forall_mem_cons.1 hm
    rw [stream_cons, split_frame h, split_of_fst_nil (split_fst_eq_nil.2 hl), ih hls]
    rfl

end Split

end Frames
