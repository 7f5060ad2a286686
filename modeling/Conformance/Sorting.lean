/-!
# Sorting

`sort` is a stable merge sort. Runs are collected as the digits of a binary counter, each twice as
long as the one before it, so that nothing but the elements themselves bounds the recursion.
`sort_perm` and `pairwise_sort` say what it gives.
-/

namespace Conformance.Sorting

variable {α : Type} (le : α → α → Bool)

/-- Merges `x :: xs` with a list, where `mergeRest` merges `xs`. -/
def mergeInto (x : α) (xs : List α) (mergeRest : List α → List α) : List α → List α
  | [] => x :: xs
  | y :: ys => if le x y then x :: mergeRest (y :: ys) else y :: mergeInto x xs mergeRest ys

/-- Two ascending lists as one; of equals, those of the first list come first. -/
def merge : List α → List α → List α
  | [], ys => ys
  | x :: xs, ys => mergeInto le x xs (merge xs) ys

/-- Runs of doubling length, some of them missing. -/
abbrev Runs (α : Type) := List (Option (List α))

/-- Puts a run in front, merged with those of its length. -/
def push (run : List α) : Runs α → Runs α
  | [] => [some run]
  | none :: rest => some run :: rest
  | some other :: rest => none :: push (merge le run other) rest

/-- All runs merged. -/
def collapse : Runs α → List α
  | [] => []
  | none :: rest => collapse rest
  | some run :: rest => merge le run (collapse rest)

def runs (xs : List α) : Runs α :=
  xs.foldr (fun x rs => push le [x] rs) []

def sort (xs : List α) : List α :=
  collapse le (runs le xs)

theorem mergeInto_perm {x : α} {xs : List α} {mergeRest : List α → List α}
    (h : ∀ ys, (mergeRest ys).Perm (xs ++ ys)) (ys : List α) :
    (mergeInto le x xs mergeRest ys).Perm (x :: xs ++ ys) := by
  induction ys with
  | nil => simp [mergeInto]
  | cons y ys ih =>
    rw [mergeInto]
    split
    · exact (h (y :: ys)).cons x
    · exact (ih.cons y).trans List.perm_middle.symm

theorem merge_perm (xs ys : List α) : (merge le xs ys).Perm (xs ++ ys) := by
  induction xs generalizing ys with
  | nil => simp [merge]
  | cons x xs ih => exact mergeInto_perm le ih ys

/-- The elements of all runs. -/
def content (rs : Runs α) : List α :=
  rs.flatMap fun run => run.getD []

theorem push_perm (run : List α) (rs : Runs α) :
    (content (push le run rs)).Perm (run ++ content rs) := by
  induction rs generalizing run with
  | nil => simp [push, content]
  | cons r rs ih =>
    cases r with
    | none => simp [push, content]
    | some other =>
      have step := (ih (merge le run other)).trans ((merge_perm le run other).append_right _)
      simpa [push, content] using step

theorem collapse_perm (rs : Runs α) : (collapse le rs).Perm (content rs) := by
  induction rs with
  | nil => simp [collapse, content]
  | cons r rs ih =>
    cases r with
    | none => simpa [collapse, content] using ih
    | some run =>
      have step := (merge_perm le run (collapse le rs)).trans (ih.append_left run)
      simpa [collapse, content] using step

theorem runs_perm (xs : List α) : (content (runs le xs)).Perm xs := by
  induction xs with
  | nil => simp [runs, content]
  | cons x xs ih => exact (push_perm le [x] (runs le xs)).trans (ih.cons x)

theorem sort_perm (xs : List α) : (sort le xs).Perm xs :=
  (collapse_perm le (runs le xs)).trans (runs_perm le xs)

section

variable {le}
variable (total : ∀ a b, le a b = true ∨ le b a = true)
variable (trans : ∀ a b c, le a b = true → le b c = true → le a c = true)

abbrev Ascending (le : α → α → Bool) (xs : List α) : Prop :=
  xs.Pairwise fun a b => le a b = true

include total trans

theorem pairwise_mergeInto {x : α} {xs : List α} (hx : Ascending le (x :: xs))
    (h : ∀ ys, Ascending le ys → Ascending le (merge le xs ys)) (ys : List α)
    (hys : Ascending le ys) : Ascending le (mergeInto le x xs (merge le xs) ys) := by
  induction ys with
  | nil => simpa [mergeInto] using hx
  | cons y ys ih =>
    have ⟨hxs, _⟩ := List.pairwise_cons.1 hx
    have ⟨hy, hys'⟩ := List.pairwise_cons.1 hys
    rw [mergeInto]
    split
    · rename_i hle
      refine List.pairwise_cons.2 ⟨fun z hz => ?_, h _ hys⟩
      rcases List.mem_append.1 ((merge_perm le xs (y :: ys)).mem_iff.1 hz) with hz | hz
      · exact hxs z hz
      · rcases List.mem_cons.1 hz with rfl | hz
        · exact hle
        · exact trans _ _ _ hle (hy z hz)
    · rename_i hle
      have hyx : le y x = true := (total x y).resolve_left hle
      refine List.pairwise_cons.2 ⟨fun z hz => ?_, ih hys'⟩
      rcases List.mem_append.1 ((mergeInto_perm le (merge_perm le xs) ys).mem_iff.1 hz) with hz | hz
      · rcases List.mem_cons.1 hz with rfl | hz
        · exact hyx
        · exact trans _ _ _ hyx (hxs z hz)
      · exact hy z hz

theorem pairwise_merge {xs ys : List α} (hxs : Ascending le xs) (hys : Ascending le ys) :
    Ascending le (merge le xs ys) := by
  induction xs generalizing ys with
  | nil => simpa [merge] using hys
  | cons x xs ih =>
    exact pairwise_mergeInto total trans hxs
      (fun _ => ih (List.pairwise_cons.1 hxs).2) ys hys

theorem pairwise_push {run : List α} {rs : Runs α} (hrun : Ascending le run)
    (hrs : ∀ r, some r ∈ rs → Ascending le r) :
    ∀ r, some r ∈ push le run rs → Ascending le r := by
  induction rs generalizing run with
  | nil => simpa [push] using hrun
  | cons r rs ih =>
    cases r with
    | none =>
      intro r hr
      rcases List.mem_cons.1 hr with hr | hr
      · exact (Option.some.inj hr) ▸ hrun
      · exact hrs r (List.mem_cons_of_mem _ hr)
    | some other =>
      intro r hr
      have hother := hrs other List.mem_cons_self
      rcases List.mem_cons.1 hr with hr | hr
      · cases hr
      · exact ih (pairwise_merge total trans hrun hother)
          (fun r hr => hrs r (List.mem_cons_of_mem _ hr)) r hr

theorem pairwise_collapse {rs : Runs α} (hrs : ∀ r, some r ∈ rs → Ascending le r) :
    Ascending le (collapse le rs) := by
  induction rs with
  | nil => simp [collapse]
  | cons r rs ih =>
    have hrest := ih fun r hr => hrs r (List.mem_cons_of_mem _ hr)
    cases r with
    | none => exact hrest
    | some run => exact pairwise_merge total trans (hrs run List.mem_cons_self) hrest

theorem pairwise_runs (xs : List α) : ∀ r, some r ∈ runs le xs → Ascending le r := by
  induction xs with
  | nil => simp [runs]
  | cons x xs ih => exact pairwise_push total trans (List.pairwise_singleton _ x) ih

theorem pairwise_sort (xs : List α) : Ascending le (sort le xs) :=
  pairwise_collapse total trans (pairwise_runs total trans xs)

end

end Conformance.Sorting
