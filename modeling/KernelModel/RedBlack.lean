import Mathlib.Tactic

/-!
Red-black trees and places in them.

A place in a tree is a list of frames, the nodes above it from the inside out, each with the
side the place is on and the other subtree. Both sides are treated alike: `join d c a s t` is
the node `a` of colour `c` with `s` on side `d`, where `true` is the right side.

The colour of the root is free.
-/

namespace KernelModel.RedBlack

/-- A tree with coloured nodes. -/
inductive CTree (α : Type*)
  | nil
  | node (red : Bool) (l : CTree α) (a : α) (r : CTree α)

variable {α : Type*}

namespace CTree

/-- The labels from left to right. -/
def toList : CTree α → List α
  | nil => []
  | node _ l a r => l.toList ++ a :: r.toList

def isRed : CTree α → Bool
  | nil => false
  | node c _ _ _ => c

def join : Bool → Bool → α → CTree α → CTree α → CTree α
  | false, c, a, s, t => node c s a t
  | true, c, a, s, t => node c t a s

lemma join_not (d c : Bool) (a : α) (s t : CTree α) : join (!d) c a s t = join d c a t s := by
  cases d <;> rfl

@[simp] lemma isRed_join (d c : Bool) (a : α) (s t : CTree α) : (join d c a s t).isRed = c := by
  cases d <;> rfl

lemma toList_join (d c : Bool) (a : α) (s t : CTree α) : (join d c a s t).toList =
    if d then t.toList ++ a :: s.toList else s.toList ++ a :: t.toList := by
  cases d <;> rfl

lemma toList_rotate (d c c' e e' : Bool) (x z : α) (A B C : CTree α) :
    (join d e z (join d e' x A B) C).toList = (join d c x A (join d c' z B C)).toList := by
  cases d <;> simp [join, toList]

lemma eq_join (d : Bool) (t : CTree α) (h : t ≠ nil) : ∃ c a s u, t = join d c a s u := by
  cases t with
  | nil => exact absurd rfl h
  | node c l a r =>
    cases d
    · exact ⟨c, a, l, r, rfl⟩
    · exact ⟨c, a, r, l, rfl⟩

/-! ### Balance -/

/-- No red node has a red child, and every path down to a missing child meets `n` black
nodes. -/
inductive Balanced : CTree α → ℕ → Prop
  | nil : Balanced nil 0
  | red {l r : CTree α} {a : α} {n : ℕ} (hl : Balanced l n) (hr : Balanced r n)
    (hlr : l.isRed = false) (hrr : r.isRed = false) : Balanced (node true l a r) n
  | black {l r : CTree α} {a : α} {n : ℕ} (hl : Balanced l n) (hr : Balanced r n) :
    Balanced (node false l a r) (n + 1)

lemma Balanced.join_red {d : Bool} {a : α} {s t : CTree α} {n : ℕ} (hs : Balanced s n)
    (ht : Balanced t n) (hsr : s.isRed = false) (htr : t.isRed = false) :
    Balanced (join d true a s t) n := by
  cases d
  · exact .red hs ht hsr htr
  · exact .red ht hs htr hsr

lemma Balanced.join_black {d : Bool} {a : α} {s t : CTree α} {n : ℕ} (hs : Balanced s n)
    (ht : Balanced t n) : Balanced (join d false a s t) (n + 1) := by
  cases d
  · exact .black hs ht
  · exact .black ht hs

lemma Balanced.of_join_red {d : Bool} {a : α} {s t : CTree α} {n : ℕ}
    (h : Balanced (join d true a s t) n) :
    Balanced s n ∧ Balanced t n ∧ s.isRed = false ∧ t.isRed = false := by
  cases d <;> cases h with
  | red hl hr hlr hrr => simp [*]

lemma Balanced.of_join_black {d : Bool} {a : α} {s t : CTree α} {n : ℕ}
    (h : Balanced (join d false a s t) n) :
    ∃ m, n = m + 1 ∧ Balanced s m ∧ Balanced t m := by
  cases d <;> cases h with
  | black hl hr => exact ⟨_, rfl, by assumption, by assumption⟩

/-- A node with children of black height `n`: `n + 1` if it is black itself. -/
lemma Balanced.join {d c : Bool} {a : α} {s t : CTree α} {n : ℕ} (hs : Balanced s n)
    (ht : Balanced t n) (hsr : c → s.isRed = false) (htr : c → t.isRed = false) :
    Balanced (join d c a s t) (n + if c then 0 else 1) := by
  cases c
  · exact hs.join_black ht
  · exact hs.join_red ht (hsr rfl) (htr rfl)

lemma Balanced.of_join {d c : Bool} {a : α} {s t : CTree α} {n : ℕ}
    (h : Balanced (CTree.join d c a s t) n) : ∃ m, n = m + (if c then 0 else 1) ∧ Balanced s m ∧
      Balanced t m ∧ (c → s.isRed = false) ∧ (c → t.isRed = false) := by
  cases c
  · obtain ⟨m, rfl, hs, ht⟩ := h.of_join_black
    exact ⟨m, rfl, hs, ht, by simp, by simp⟩
  · obtain ⟨hs, ht, hsr, htr⟩ := h.of_join_red
    exact ⟨n, rfl, hs, ht, fun _ => hsr, fun _ => htr⟩

lemma Balanced.ne_nil {t : CTree α} {n : ℕ} (h : Balanced t (n + 1)) : t ≠ CTree.nil := by
  rintro rfl
  cases h

lemma Balanced.eq_nil {t : CTree α} (h : Balanced t 0) (hr : t.isRed = false) : t = CTree.nil := by
  cases h with
  | nil => rfl
  | red => simp [isRed] at hr

lemma Balanced.blacken {d : Bool} {a : α} {s t : CTree α} {n : ℕ}
    (h : Balanced (CTree.join d true a s t) n) : Balanced (CTree.join d false a s t) (n + 1) := by
  obtain ⟨hs, ht, -, -⟩ := h.of_join_red
  exact hs.join_black ht

end CTree

open CTree

/-! ### Places -/

structure Frame (α : Type*) where
  dir : Bool
  red : Bool
  label : α
  sib : CTree α

def Frame.fill (f : Frame α) (t : CTree α) : CTree α := join f.dir f.red f.label t f.sib

/-- The tree that has `t` at the place. -/
def plug : List (Frame α) → CTree α → CTree α
  | [], t => t
  | f :: fs, t => plug fs (f.fill t)

@[simp] lemma plug_nil (t : CTree α) : plug [] t = t := rfl

@[simp] lemma plug_cons (f : Frame α) (fs : List (Frame α)) (t : CTree α) :
    plug (f :: fs) t = plug fs (f.fill t) := rfl

lemma plug_append (fs gs : List (Frame α)) (t : CTree α) :
    plug (fs ++ gs) t = plug gs (plug fs t) := by
  induction fs generalizing t with
  | nil => rfl
  | cons f fs ih => exact ih (f.fill t)

/-- The labels before and after the place. -/
def around : List (Frame α) → List α × List α
  | [] => ([], [])
  | f :: fs =>
    if f.dir then ((around fs).1 ++ (f.sib.toList ++ [f.label]), (around fs).2)
    else ((around fs).1, f.label :: f.sib.toList ++ (around fs).2)

lemma toList_plug (fs : List (Frame α)) (t : CTree α) :
    (plug fs t).toList = (around fs).1 ++ t.toList ++ (around fs).2 := by
  induction fs generalizing t with
  | nil => simp [around]
  | cons f fs ih =>
    rw [plug_cons, ih, Frame.fill, toList_join, around]
    cases f.dir <;> simp

lemma around_append (fs gs : List (Frame α)) : around (fs ++ gs)
    = ((around gs).1 ++ (around fs).1, (around fs).2 ++ (around gs).2) := by
  induction fs with
  | nil => simp [around]
  | cons f fs ih =>
    rw [List.cons_append, around, around, ih]
    cases f.dir <;> simp

lemma exists_place {a : α} {t : CTree α} (h : a ∈ t.toList) :
    ∃ fs c l r, t = plug fs (node c l a r) := by
  induction t with
  | nil => simp [toList] at h
  | node c l b r ihl ihr =>
    simp only [toList, List.mem_append, List.mem_cons] at h
    rcases h with h | rfl | h
    · obtain ⟨fs, c', l', r', rfl⟩ := ihl h
      exact ⟨fs ++ [⟨false, c, b, r⟩], c', l', r', by rw [plug_append]; rfl⟩
    · exact ⟨[], c, l, r, rfl⟩
    · obtain ⟨fs, c', l', r', rfl⟩ := ihr h
      exact ⟨fs ++ [⟨true, c, b, l⟩], c', l', r', by rw [plug_append]; rfl⟩

def headRed : List (Frame α) → Bool
  | [] => false
  | f :: _ => f.red

/-- A tree of black height `n` fits in at the place; under a red node it has to be black. -/
inductive Fits : List (Frame α) → ℕ → Prop
  | nil (n : ℕ) : Fits [] n
  | red {d : Bool} {a : α} {s : CTree α} {fs : List (Frame α)} {n : ℕ} (hs : Balanced s n)
    (hsr : s.isRed = false) (hfs : Fits fs n) (hr : headRed fs = false) :
    Fits (⟨d, true, a, s⟩ :: fs) n
  | black {d : Bool} {a : α} {s : CTree α} {fs : List (Frame α)} {n : ℕ} (hs : Balanced s n)
    (hfs : Fits fs (n + 1)) : Fits (⟨d, false, a, s⟩ :: fs) n

lemma Fits.plug {fs : List (Frame α)} {n : ℕ} (h : Fits fs n) : ∀ {t : CTree α}, Balanced t n →
    (headRed fs → t.isRed = false) → ∃ m, Balanced (plug fs t) m := by
  induction h with
  | nil n => exact fun ht _ => ⟨n, ht⟩
  | red hs hsr _ hr ih =>
    intro t ht htr
    exact ih (ht.join_red hs (htr rfl) hsr) (by simp [hr])
  | black hs _ ih =>
    intro t ht _
    exact ih (ht.join_black hs) (by simp [Frame.fill])

lemma fits_of_plug : ∀ (fs : List (Frame α)) {t : CTree α} {m : ℕ}, Balanced (plug fs t) m →
    ∃ n, Balanced t n ∧ Fits fs n ∧ (headRed fs → t.isRed = false)
  | [], t, m, h => ⟨m, h, .nil m, by simp [headRed]⟩
  | ⟨d, c, a, s⟩ :: fs, t, m, h => by
    obtain ⟨k, hk, hfs, hr⟩ := fits_of_plug fs h
    cases c
    · obtain ⟨n, rfl, ht, hs⟩ := hk.of_join_black
      exact ⟨n, ht, .black hs hfs, by simp [headRed]⟩
    · obtain ⟨ht, hs, htr, hsr⟩ := hk.of_join_red
      exact ⟨k, ht, .red hs hsr hfs (by simpa [Frame.fill] using hr), fun _ => htr⟩

lemma Fits.of_red {d : Bool} {a : α} {s : CTree α} {fs : List (Frame α)} {n : ℕ}
    (h : Fits (⟨d, true, a, s⟩ :: fs) n) :
    Balanced s n ∧ s.isRed = false ∧ Fits fs n ∧ headRed fs = false := by
  cases h with
  | red hs hsr hfs hr => exact ⟨hs, hsr, hfs, hr⟩

lemma Fits.of_black {d : Bool} {a : α} {s : CTree α} {fs : List (Frame α)} {n : ℕ}
    (h : Fits (⟨d, false, a, s⟩ :: fs) n) : Balanced s n ∧ Fits fs (n + 1) := by
  cases h with
  | black hs hfs => exact ⟨hs, hfs⟩

/-! ### Renaming -/

section Map

variable {β : Type*} (g : α → β)

namespace CTree

def map : CTree α → CTree β
  | nil => nil
  | node c l a r => node c l.map (g a) r.map

@[simp] lemma map_nil : (nil : CTree α).map g = nil := rfl

@[simp] lemma map_join (d c : Bool) (a : α) (s t : CTree α) :
    (join d c a s t).map g = join d c (g a) (s.map g) (t.map g) := by
  cases d <;> rfl

@[simp] lemma isRed_map (t : CTree α) : (t.map g).isRed = t.isRed := by
  cases t <;> rfl

lemma toList_map (t : CTree α) : (t.map g).toList = t.toList.map g := by
  induction t with
  | nil => rfl
  | node c l a r ihl ihr => simp [map, toList, ihl, ihr]

lemma Balanced.map {t : CTree α} {n : ℕ} (h : Balanced t n) : Balanced (t.map g) n := by
  induction h with
  | nil => exact .nil
  | red _ _ hlr hrr ihl ihr => exact .red ihl ihr (by simpa using hlr) (by simpa using hrr)
  | black _ _ ihl ihr => exact .black ihl ihr

end CTree

def Frame.map (f : Frame α) : Frame β := ⟨f.dir, f.red, g f.label, f.sib.map g⟩

lemma map_plug (fs : List (Frame α)) (t : CTree α) :
    (plug fs t).map g = plug (fs.map (Frame.map g)) (t.map g) := by
  induction fs generalizing t with
  | nil => rfl
  | cons f fs ih =>
    rw [plug_cons, ih, Frame.fill, map_join]
    rfl

lemma around_map (fs : List (Frame α)) : around (fs.map (Frame.map g))
    = ((around fs).1.map g, (around fs).2.map g) := by
  induction fs with
  | nil => rfl
  | cons f fs ih =>
    rw [List.map_cons, around, around, ih]
    cases hd : f.dir <;> simp [Frame.map, hd, toList_map]

end Map

end KernelModel.RedBlack
