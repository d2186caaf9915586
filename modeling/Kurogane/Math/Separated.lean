/-
# Separated text

Lists of components written out as text, with a separator in front of each of
them; no component at all is written as a single separator. Reading the text back
gives the components, and one text continues another at a separator exactly when
its components continue the other's.
-/

import Mathlib.Data.List.Basic

namespace Kurogane.Math

open List

variable {α : Type*} {x : α} {components others : List (List α)} {component : List α}

/-- The components with a separator in front of each. -/
def joinPath (x : α) (components : List (List α)) : List α := x :: [x].intercalate components

/-- What stands between the separators behind the first one. -/
def splitPath [BEq α] (x : α) (text : List α) : List (List α) :=
  if text.length ≤ 1 then [] else text.tail.splitOn x

def IsComponent (x : α) (component : List α) : Prop := component ≠ [] ∧ x ∉ component

theorem joinPath_nil : joinPath x [] = [x] := rfl

theorem joinPath_cons (component : List α) (components : List (List α)) :
    joinPath x (component :: components) =
      x :: component ++ components.flatMap fun other => x :: other := by
  rw [joinPath]
  induction components generalizing component with
  | nil => simp
  | cons next _ ih =>
    have hnext := ih next
    rw [cons_append, cons.injEq] at hnext
    simp [hnext.2]

variable {text : List α} {item : α}

theorem mem_joinPath_iff :
    item ∈ joinPath x components ↔ item = x ∨ ∃ component ∈ components, item ∈ component := by
  cases components with
  | nil => simp [joinPath_nil]
  | cons first =>
    rw [joinPath_cons]
    constructor
    · simp only [cons_append, mem_cons, mem_append, mem_flatMap]
      rintro (rfl | hfirst | ⟨component, hmem, rfl | hitem⟩)
      · exact .inl rfl
      · exact .inr ⟨first, .inl rfl, hfirst⟩
      · exact .inl rfl
      · exact .inr ⟨component, .inr hmem, hitem⟩
    simp only [cons_append, mem_cons, mem_append, mem_flatMap]
    rintro (rfl | ⟨component, rfl | hmem, hitem⟩)
    · exact .inl rfl
    · exact .inr (.inl hitem)
    · exact .inr (.inr ⟨component, hmem, .inr hitem⟩)

theorem joinPath_concat (components : List (List α)) (component : List α) :
    joinPath x (components ++ [component]) =
      if components = [] then x :: component else joinPath x components ++ x :: component := by
  cases components with
  | nil => simp [joinPath_cons]
  | cons =>
    rw [if_neg (cons_ne_nil _ _), cons_append, joinPath_cons, joinPath_cons]
    simp

theorem joinPath_append (hfront : components ≠ []) (hback : others ≠ []) :
    joinPath x (components ++ others) = joinPath x components ++ joinPath x others := by
  obtain ⟨_, _, rfl⟩ := exists_cons_of_ne_nil hfront
  obtain ⟨_, _, rfl⟩ := exists_cons_of_ne_nil hback
  rw [cons_append, joinPath_cons, joinPath_cons, joinPath_cons]
  simp

section

variable (h : ∀ component ∈ components, IsComponent x component)
include h

theorem length_joinPath_nil_iff : (joinPath x components).length = 1 ↔ components = [] := by
  cases components with
  | nil => simp [joinPath_nil]
  | cons first =>
    have hfirst := length_pos_iff.mpr (h first mem_cons_self).1
    rw [joinPath_cons]
    simp only [length_append, length_cons, reduceCtorEq, iff_false]
    omega

theorem getLast?_joinPath (hne : components ≠ []) : (joinPath x components).getLast? ≠ some x := by
  obtain ⟨_, last, rfl⟩ := eq_nil_or_concat' components |>.resolve_left hne
  obtain ⟨hlast, hnot⟩ := h last (mem_append_right _ mem_cons_self)
  obtain ⟨_, final, rfl⟩ := eq_nil_or_concat' last |>.resolve_left hlast
  have hfinal : final ≠ x := fun heq => hnot (heq ▸ mem_append_right _ mem_cons_self)
  rw [joinPath_concat]
  split
  · rw [← cons_append, getLast?_concat]
    simpa using hfinal
  · rw [← cons_append, ← append_assoc, getLast?_concat]
    simpa using hfinal

end

section Split

variable [BEq α] [LawfulBEq α]

theorem splitPath_joinPath (h : ∀ component ∈ components, IsComponent x component) :
    splitPath x (joinPath x components) = components := by
  by_cases hnil : components = []
  · rw [hnil]
    rfl
  have hlen := (length_joinPath_nil_iff h).not.mpr hnil
  have hpos : 0 < (joinPath x components).length := by simp [joinPath]
  rw [splitPath, if_neg (by omega), joinPath, tail_cons,
    splitOn_intercalate x (fun component hmem => (h component hmem).2) hnil]

theorem joinPath_splitPath (h : text.head? = some x) : joinPath x (splitPath x text) = text := by
  obtain ⟨rest, rfl⟩ := head?_eq_some_iff.mp h
  rw [splitPath]
  split
  · next hlen =>
    have hrest : rest = [] := by
      rw [length_cons] at hlen
      exact length_eq_zero_iff.mp (by omega)
    rw [hrest]
    rfl
  · rw [joinPath, tail_cons, intercalate_splitOn]

theorem not_mem_of_mem_splitOn (h : component ∈ text.splitOn x) : x ∉ component := by
  induction text generalizing component with
  | nil =>
    rw [splitOn_nil, mem_singleton] at h
    rw [h]
    exact not_mem_nil
  | cons first rest ih =>
    rw [splitOn, splitOnP_cons_eq_if_modifyHead] at h
    split at h
    · rcases mem_cons.mp h with rfl | hmem
      · exact not_mem_nil
      · exact ih hmem
    next hne =>
    have hhead : first ≠ x := fun heq => hne (beq_iff_eq.mpr heq)
    cases hsplit : rest.splitOnP (fun other => other == x) with
    | nil =>
      rw [hsplit] at h
      exact absurd h not_mem_nil
    | cons piece pieces =>
      rw [hsplit, modifyHead_cons] at h
      have hpieces : ∀ other ∈ piece :: pieces, x ∉ other := fun other hother =>
        ih (by rw [splitOn, hsplit]; exact hother)
      rcases mem_cons.mp h with rfl | hmem
      · rw [mem_cons, not_or]
        exact ⟨hhead.symm, hpieces piece mem_cons_self⟩
      · exact hpieces component (mem_cons_of_mem _ hmem)

theorem mem_of_mem_splitOn (h : component ∈ text.splitOn x)
    (hitem : item ∈ component) : item ∈ text := by
  have hjoin : item ∈ joinPath x (text.splitOn x) :=
    mem_joinPath_iff.mpr (.inr ⟨component, h, hitem⟩)
  rw [joinPath, intercalate_splitOn] at hjoin
  rcases mem_cons.mp hjoin with rfl | htext
  · exact absurd hitem (not_mem_of_mem_splitOn h)
  · exact htext

end Split

/-! ## Continuing -/

/-- The text goes on at a separator, or not at all. -/
def Continues (x : α) (text longer : List α) : Prop :=
  ∃ rest, longer = text ++ rest ∧ (rest = [] ∨ rest.head? = some x)

theorem component_unique {left right : List α} {rest rest' : List α} (hleft : x ∉ left)
    (hright : x ∉ right) (hrest : rest = [] ∨ rest.head? = some x)
    (hrest' : rest' = [] ∨ rest'.head? = some x) (h : left ++ rest = right ++ rest') :
    left = right ∧ rest = rest' := by
  induction left generalizing right with
  | nil =>
    cases right with
    | nil => exact ⟨rfl, h⟩
    | cons =>
      rw [nil_append, cons_append] at h
      rcases hrest with rfl | hhead
      · cases h
      · rw [h, head?_cons, Option.some.injEq] at hhead
        exact absurd (hhead ▸ mem_cons_self) hright
  | cons _ _ ih =>
    cases right with
    | nil =>
      rw [nil_append, cons_append] at h
      rcases hrest' with rfl | hhead
      · cases h
      · rw [← h, head?_cons, Option.some.injEq] at hhead
        exact absurd (hhead ▸ mem_cons_self) hleft
    | cons =>
      rw [cons_append, cons_append, cons.injEq] at h
      rw [mem_cons, not_or] at hleft hright
      obtain ⟨heq, hrests⟩ := ih hleft.2 hright.2 h.2
      exact ⟨by rw [h.1, heq], hrests⟩

theorem head?_flatMap_cons (components : List (List α)) :
    (components.flatMap fun other => x :: other) = [] ∨
      (components.flatMap fun other => x :: other).head? = some x := by
  cases components with
  | nil => exact .inl rfl
  | cons => exact .inr rfl

theorem continues_joinPath_iff (h : ∀ component ∈ components, IsComponent x component)
    (h' : ∀ component ∈ others, IsComponent x component) (hne : components ≠ []) :
    Continues x (joinPath x components) (joinPath x others) ↔ components <+: others := by
  have hbody : ∀ {components others : List (List α)},
      (∀ component ∈ components, IsComponent x component) →
      (∀ component ∈ others, IsComponent x component) →
      Continues x (components.flatMap fun other => x :: other)
        (others.flatMap fun other => x :: other) → components <+: others := by
    intro components
    induction components with
    | nil => exact fun _ _ _ => nil_prefix
    | cons first rest ih =>
      rintro others h h' ⟨tail, heq, htail⟩
      cases others with
      | nil => cases heq
      | cons other others =>
        simp only [flatMap_cons, cons_append, cons.injEq, true_and, append_assoc] at heq
        have hrest : ((rest.flatMap fun other => x :: other) ++ tail) = [] ∨
            ((rest.flatMap fun other => x :: other) ++ tail).head? = some x := by
          rcases @head?_flatMap_cons _ x rest with hnil | hhead
          · rw [hnil]
            exact htail
          · refine .inr ?_
            rw [head?_append, hhead]
            rfl
        obtain ⟨hfirst, hrests⟩ := component_unique (h' other mem_cons_self).2
          (h first mem_cons_self).2 (head?_flatMap_cons others) hrest heq
        rw [hfirst, prefix_cons_inj]
        exact ih (fun component hmem => h component (mem_cons_of_mem _ hmem))
          (fun component hmem => h' component (mem_cons_of_mem _ hmem))
          ⟨tail, hrests, htail⟩
  have hflat : ∀ {components : List (List α)}, components ≠ [] →
      joinPath x components = components.flatMap fun other => x :: other := by
    intro components hne
    cases components with
    | nil => exact absurd rfl hne
    | cons =>
      rw [joinPath_cons]
      rfl
  constructor
  · intro hcontinues
    by_cases hnil : others = []
    · subst hnil
      obtain ⟨rest, heq, -⟩ := hcontinues
      have hlen := congrArg length heq
      have hone := (length_joinPath_nil_iff h).not.mpr hne
      have hpos : 0 < (joinPath x components).length := by simp [joinPath]
      rw [joinPath_nil, length_append, length_singleton] at hlen
      omega
    · rw [hflat hne, hflat hnil] at hcontinues
      exact hbody h h' hcontinues
  · rintro ⟨rest, rfl⟩
    refine ⟨rest.flatMap fun other => x :: other, ?_, head?_flatMap_cons rest⟩
    rw [hflat (by simp [hne]), hflat hne, flatMap_append]

end Kurogane.Math
