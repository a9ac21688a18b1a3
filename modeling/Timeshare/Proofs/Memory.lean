import Timeshare.Machine.Memory
import Timeshare.Proofs.Region
import Mathlib.Data.List.Nodup
import Mathlib.Data.List.Pairwise
import Mathlib.Data.List.Perm.Basic

namespace Timeshare

/-!
# Parts of memory

What the pools, the queues and the programs do is local: each of them touches a few words and
leaves all others alone.

* `Memory.SameOn p m n` — the memories `m` and `n` hold the same words at all addresses with the
  property `p`.  Every frame condition is stated with it.
* `Span` — consecutive words, given by where they start and how many they are; `Separate span xs` — no
  two of the things `xs` share a word, so that their words are all different
  (`Separate.nodup_words`).
* `Tiles pieces whole` — the pieces cover every word of the whole exactly once.  A tiling by pieces
  that have words is a partition (`Tiles.apart`, `Tiles.length_words`).
-/

/-! ### Memories that agree -/

namespace Memory

/-- Two memories hold the same words at all addresses with a property. -/
def SameOn (p : Address → Prop) (m n : Memory) : Prop := ∀ a, p a → m.read a = n.read a

variable {p q : Address → Prop} {m n o : Memory}

@[refl] theorem SameOn.refl (p : Address → Prop) (m : Memory) : SameOn p m m := fun _ _ => rfl

/-- Agreement is symmetric. -/
theorem SameOn.symm (h : SameOn p m n) : SameOn p n m := fun a ha => (h a ha).symm

/-- Agreement is transitive: `m` and `o` agree on `p` if both agree with `n` there. -/
theorem SameOn.trans (h : SameOn p m n) (h' : SameOn p n o) : SameOn p m o :=
  fun a ha => (h a ha).trans (h' a ha)

/-- Agreement on `p` is agreement on every smaller `q`. -/
theorem SameOn.mono (h : SameOn p m n) (hqp : ∀ a, q a → p a) : SameOn q m n :=
  fun a ha => h a (hqp a ha)

/-- A write to `a` changes no word at the addresses `p`, if `a` is none of them. -/
theorem sameOn_write {a : Address} {w : Word} (h : ¬ p a) : SameOn p m (m.write a w) := by
  intro b hb
  rw [read_write_of_ne]
  rintro rfl
  exact h hb

/-- A write to an address with the property `p` changes no word outside `p`. -/
theorem sameOn_not_write {a : Address} {w : Word} (h : p a) :
    SameOn (fun b => ¬ p b) m (m.write a w) := sameOn_write (not_not_intro h)

/-- Writing `w` to `a` in both `m` and `n` keeps their agreement, also on the word at `a`. -/
theorem SameOn.write (h : SameOn p m n) (a : Address) (w : Word) :
    SameOn p (m.write a w) (n.write a w) := by
  intro b hb
  by_cases hab : a = b
  · rw [hab, read_write_self, read_write_self]
  · rw [read_write_of_ne _ _ hab, read_write_of_ne _ _ hab]
    exact h b hb

end Memory

/-! ### Spans -/

/-- Consecutive words of memory. -/
@[ext] structure Span where
  start : Nat
  size : Nat
  deriving DecidableEq

namespace Span

/-- The indices of the words of a span. -/
def words (s : Span) : List Nat := List.range' s.start s.size

/-- The words of a span are the indices `i` with `s.start ≤ i < s.start + s.size`. -/
@[simp] theorem mem_words {s : Span} {i : Nat} :
    i ∈ s.words ↔ s.start ≤ i ∧ i < s.start + s.size := by
  rw [words, List.mem_range'_1]

theorem nodup_words (s : Span) : s.words.Nodup := List.nodup_range' 1

@[simp] theorem length_words (s : Span) : s.words.length = s.size := List.length_range'

/-- The words of `⟨start, front⟩` and behind them those of `⟨start + front, back⟩` are those of
    `⟨start, front + back⟩`. -/
theorem words_append {start front back : Nat} :
    words ⟨start, front⟩ ++ words ⟨start + front, back⟩ = words ⟨start, front + back⟩ :=
  List.range'_append_1

/-- Two spans that share no word. -/
def Apart (s t : Span) : Prop := s.start + s.size ≤ t.start ∨ t.start + t.size ≤ s.start

instance (s t : Span) : Decidable (s.Apart t) := inferInstanceAs (Decidable (_ ∨ _))

/-- Being apart is symmetric. -/
theorem Apart.symm {s t : Span} (h : s.Apart t) : t.Apart s := Or.symm h

/-- Two spans that have words are `Apart` if no index is a word of both. -/
theorem apart_of_words {s t : Span} (hs : 0 < s.size) (ht : 0 < t.size)
    (h : ∀ i ∈ s.words, i ∉ t.words) : s.Apart t := by
  unfold Apart
  by_contra hst
  rw [not_or, Nat.not_le, Nat.not_le] at hst
  -- The later of the two starts is a word of both.
  rcases Nat.le_total s.start t.start with hle | hle
  · refine h t.start ?_ ?_ <;> rw [mem_words] <;> omega
  · refine h s.start ?_ ?_ <;> rw [mem_words] <;> omega

/-- The address of a word of a span. -/
instance : Membership Address Span := ⟨fun s a => a.index ∈ s.words⟩

/-- An address is in a span iff `s.start ≤ a.index < s.start + s.size`. -/
theorem mem_iff {s : Span} {a : Address} :
    a ∈ s ↔ s.start ≤ a.index ∧ a.index < s.start + s.size := mem_words

instance (s : Span) (a : Address) : Decidable (a ∈ s) :=
  inferInstanceAs (Decidable (a.index ∈ s.words))

/-- An address in a span is in no span apart from it. -/
theorem Apart.not_mem {s t : Span} (h : s.Apart t) {a : Address} (ha : a ∈ s) : a ∉ t := by
  rw [mem_iff] at ha ⊢
  unfold Apart at h
  omega

end Span

/-- No two things of a list share a word. -/
def Separate {α : Type} (span : α → Span) (xs : List α) : Prop :=
  xs.Pairwise fun x y => (span x).Apart (span y)

/-- Any two different things of a separate list have spans that are `Apart`. -/
theorem Separate.apart {α : Type} {span : α → Span} {xs : List α} (h : Separate span xs) {x y : α}
    (hx : x ∈ xs) (hy : y ∈ xs) (hne : x ≠ y) : (span x).Apart (span y) := by
  have : Std.Symm fun x y : α => (span x).Apart (span y) := ⟨fun _ _ h => h.symm⟩
  exact List.Pairwise.forall h hx hy hne

/-- The last thing of a separate list is apart from all before it. -/
theorem Separate.last {α : Type} {span : α → Span} {xs : List α} (h : Separate span xs) {x y : α}
    (hx : x ∈ xs.dropLast) (hy : y ∈ xs.getLast?) : (span x).Apart (span y) := by
  rw [Separate, ← List.dropLast_append_getLast? y hy] at h
  exact (List.pairwise_append.mp h).2.2 x hx y (List.mem_singleton.mpr rfl)

/-- Things that have words (`0 < (span x).size`) and share none are different: the list is
    `Nodup`. -/
theorem Separate.nodup {α : Type} {span : α → Span} {xs : List α} (h : Separate span xs)
    (hpos : ∀ x ∈ xs, 0 < (span x).size) : xs.Nodup := by
  refine List.Pairwise.imp_of_mem ?_ h
  rintro x y hx - hapart rfl
  have := hpos x hx
  rcases hapart with hlt | hlt <;> omega

/-- Things that share no word have each of their words once: the list of all words is `Nodup`. -/
theorem Separate.nodup_words {α : Type} {span : α → Span} {xs : List α} (h : Separate span xs) :
    (xs.flatMap fun x => (span x).words).Nodup := by
  refine List.nodup_flatMap.mpr ⟨fun x _ => (span x).nodup_words, h.imp ?_⟩
  intro x y hxy i hi hi'
  rw [Span.mem_words] at hi hi'
  unfold Span.Apart at hxy
  omega

/-- The converse of `Separate.nodup_words` for things that have words. -/
theorem separate_of_nodup_words {α : Type} {span : α → Span} {xs : List α}
    (hpos : ∀ x ∈ xs, 0 < (span x).size) (h : (xs.flatMap fun x => (span x).words).Nodup) :
    Separate span xs := by
  refine List.Pairwise.imp_of_mem ?_ (List.nodup_flatMap.mp h).2
  intro x y hx hy hxy
  exact Span.apart_of_words (hpos x hx) (hpos y hy) fun i hi hi' => hxy hi hi'

/-- Spans of at least `k` words each have `spans.length * k` words or more in all. -/
theorem Span.length_mul_le_words {spans : List Span} {k : Nat} (hk : ∀ s ∈ spans, k ≤ s.size) :
    spans.length * k ≤ (spans.flatMap Span.words).length := by
  induction spans with
  | nil => simp
  | cons s rest ih =>
    rw [List.flatMap_cons, List.length_append, Span.length_words, List.length_cons, Nat.succ_mul]
    have := ih fun t ht => hk t (List.mem_cons_of_mem _ ht)
    have := hk s List.mem_cons_self
    omega

/-- Separate things of at least `k` words each are few within `whole`:
    `xs.length * k ≤ whole.size`. -/
theorem Separate.length_mul_le {α : Type} {span : α → Span} {xs : List α} (h : Separate span xs)
    {whole : Span} {k : Nat} (hk : ∀ x ∈ xs, k ≤ (span x).size)
    (hin : ∀ x ∈ xs, ∀ i ∈ (span x).words, i ∈ whole.words) : xs.length * k ≤ whole.size := by
  -- The words are all different and all in `whole`, so that their number is at most `whole.size`.
  have hsub : (xs.flatMap fun x => (span x).words).Subperm whole.words :=
    List.subperm_of_subset h.nodup_words fun i hi => by
      obtain ⟨x, hx, hi⟩ := List.mem_flatMap.mp hi
      exact hin x hx i hi
  have hwords : (xs.map span).length * k ≤ _ :=
    Span.length_mul_le_words (List.forall_mem_map.mpr hk)
  rw [List.length_map, List.flatMap_map] at hwords
  rw [← whole.length_words]
  exact Nat.le_trans hwords hsub.length_le

/-- The words of a region. -/
def Region.span (r : Region) : Span := ⟨r.start.toNat, r.length.toNat⟩

/-! ### Tilings -/

/-- The pieces cover every word of the whole exactly once, and no other word. -/
def Tiles (pieces : List Span) (whole : Span) : Prop :=
  (pieces.flatMap Span.words).Perm whole.words

section Tiles

variable {pieces others : List Span} {whole : Span}

/-- The order of the pieces does not matter to `Tiles`. -/
theorem Tiles.perm (h : Tiles pieces whole) (hp : others.Perm pieces) : Tiles others whole :=
  (hp.flatMap_right Span.words).trans h

/-- A span is tiled by itself: `Tiles [s] s`. -/
theorem tiles_self (s : Span) : Tiles [s] s := by
  rw [Tiles, List.flatMap_singleton]

/-- No piece sticks out: every word of a piece is a word of `whole`. -/
theorem Tiles.mem_whole (h : Tiles pieces whole) {s : Span} (hs : s ∈ pieces) {i : Nat}
    (hi : i ∈ s.words) : i ∈ whole.words := h.mem_iff.mp (List.mem_flatMap.mpr ⟨s, hs, hi⟩)

/-- A piece that has words lies between the bounds of `whole`. -/
theorem Tiles.bounds (h : Tiles pieces whole) {s : Span} (hs : s ∈ pieces) (hpos : 0 < s.size) :
    whole.start ≤ s.start ∧ s.start + s.size ≤ whole.start + whole.size := by
  -- The first and the last word of the piece are words of the whole.
  have hfirst := h.mem_whole hs (i := s.start) (by rw [Span.mem_words]; omega)
  have hlast := h.mem_whole hs (i := s.start + s.size - 1) (by rw [Span.mem_words]; omega)
  rw [Span.mem_words] at hfirst hlast
  omega

/-- Pieces that have words are pairwise `Apart`. -/
theorem Tiles.apart (h : Tiles pieces whole) (hpos : ∀ s ∈ pieces, 0 < s.size) :
    pieces.Pairwise Span.Apart := by
  -- The words of the whole are all different, and the pieces have the same ones.
  have hnodup : (pieces.flatMap Span.words).Nodup := h.nodup_iff.mpr whole.nodup_words
  exact (separate_of_nodup_words hpos hnodup : Separate id pieces)

/-- The pieces have as many words as the whole: their lengths add up to `whole.size`. -/
theorem Tiles.length_words (h : Tiles pieces whole) :
    (pieces.flatMap Span.words).length = whole.size := by
  rw [h.length_eq, Span.length_words]

/-- Pieces of at least `k` words each are few: `pieces.length * k ≤ whole.size`. -/
theorem Tiles.length_mul_le (h : Tiles pieces whole) {k : Nat} (hk : ∀ s ∈ pieces, k ≤ s.size) :
    pieces.length * k ≤ whole.size := by
  rw [← h.length_words]
  exact Span.length_mul_le_words hk

end Tiles

end Timeshare
