import Timeshare.Address

namespace Timeshare

/-!
# Lists threaded through memory

Free blocks and process records form linked lists whose links stand in the nodes themselves.
`Chain address node l xs l'` says that from the link `l` on the nodes are `xs`, and that the last
of them links to `l'`; what it takes to be a node with a given link is a parameter.

* `chain_append` — a chain can be cut anywhere, so that an operation in the middle of a list is
  one at the end of a first part or at the start of a second.
* `Chain.imp` — a chain stays one as long as its nodes do.  This is the frame rule for lists.
* `Chain.relink` — a first part gets another end by a write to its last node, or, if it has none, by
  another head.  Every insertion and removal does this.
-/

variable {α : Type}

/-- The nodes from a link on, up to another link. -/
def Chain (address : α → Address) (node : α → Link → Prop) : Link → List α → Link → Prop
  | l, [], l' => l = l'
  | l, x :: xs, l' => l = .node (address x) ∧ ∃ next, node x next ∧ Chain address node next xs l'

variable {address : α → Address} {node node' : α → Link → Prop} {l l' : Link} {x : α}
  {xs ys : List α}

@[simp] theorem chain_nil : Chain address node l [] l' ↔ l = l' := Iff.rfl

theorem chain_cons :
    Chain address node l (x :: xs) l' ↔
      l = .node (address x) ∧ ∃ next, node x next ∧ Chain address node next xs l' := Iff.rfl

/-- A chain can be cut anywhere: `xs ++ ys` leads from `l` to `l'` iff `xs` leads from `l` to some
    `mid` and `ys` from there to `l'`. -/
theorem chain_append :
    Chain address node l (xs ++ ys) l' ↔
      ∃ mid, Chain address node l xs mid ∧ Chain address node mid ys l' := by
  -- By induction on the first part; `mid` is found where it ends.
  induction xs generalizing l with
  | nil => simp
  | cons x xs ih =>
    rw [List.cons_append, chain_cons]
    constructor
    · rintro ⟨hl, next, hx, hrest⟩
      obtain ⟨mid, hxs, hys⟩ := ih.mp hrest
      exact ⟨mid, ⟨hl, next, hx, hxs⟩, hys⟩
    · rintro ⟨mid, ⟨hl, next, hx, hxs⟩, hys⟩
      exact ⟨hl, next, hx, ih.mpr ⟨mid, hxs, hys⟩⟩

/-- A chain `xs ++ [x]` ends at `l'` iff `xs` leads to the address of `x` and `x` links to `l'`. -/
theorem chain_concat :
    Chain address node l (xs ++ [x]) l' ↔
      Chain address node l xs (.node (address x)) ∧ node x l' := by
  rw [chain_append]
  constructor
  · rintro ⟨mid, hxs, hmid, next, hx, hnext⟩
    rw [chain_nil] at hnext
    exact ⟨hmid ▸ hxs, hnext ▸ hx⟩
  · rintro ⟨hxs, hx⟩
    exact ⟨_, hxs, rfl, l', hx, rfl⟩

/-- The frame rule: a chain stays one if each of its nodes `x` is also a `node'` with the same
    link. -/
theorem Chain.imp (h : Chain address node l xs l')
    (hnode : ∀ x ∈ xs, ∀ next, node x next → node' x next) : Chain address node' l xs l' := by
  induction xs generalizing l with
  | nil => exact h
  | cons x xs ih =>
    obtain ⟨hl, next, hx, hrest⟩ := h
    exact ⟨hl, next, hnode x List.mem_cons_self next hx,
      ih hrest fun y hy => hnode y (List.mem_cons_of_mem _ hy)⟩

/-- Where a list starts whose first part gets another end. -/
def relinked (xs : List α) (l mid : Link) : Link :=
  match xs.getLast? with
  | none => mid
  | some _ => l

/-- A first part of a list gets another end `mid`: its last node is written to, its other nodes are
    left alone, and if it has no node then the list starts at `mid`. -/
theorem Chain.relink {mid : Link} (h : Chain address node l xs l')
    (hinit : ∀ x ∈ xs.dropLast, ∀ next, node x next → node' x next)
    (hlast : ∀ x ∈ xs.getLast?, ∀ next, node x next → node' x mid) :
    Chain address node' (relinked xs l mid) xs mid := by
  -- The last node is the one that changes, so that the list is taken apart from behind.
  rcases List.eq_nil_or_concat xs with rfl | ⟨init, x, rfl⟩
  · rfl
  · rw [List.concat_eq_append] at *
    have hl : relinked (init ++ [x]) l mid = l := by
      rw [relinked, List.getLast?_concat]
    rw [List.dropLast_concat] at hinit
    obtain ⟨hfront, hx⟩ := chain_concat.mp h
    rw [hl, chain_concat]
    exact ⟨hfront.imp hinit, hlast x (by rw [List.getLast?_concat]; rfl) _ hx⟩

/-- A chain from `none` to `none` has no nodes. -/
theorem Chain.eq_nil (h : Chain address node .none xs .none) : xs = [] := by
  cases xs with
  | nil => rfl
  | cons x xs => exact absurd h.1 (by simp)

/-- A chain that starts at an address has a first node, which is there, and a rest. -/
theorem Chain.exists_cons {a : Address} (h : Chain address node (.node a) xs .none) :
    ∃ x rest next, xs = x :: rest ∧ address x = a ∧ node x next
      ∧ Chain address node next rest .none := by
  cases xs with
  | nil => exact absurd h (by simp)
  | cons x rest =>
    obtain ⟨hl, next, hx, hrest⟩ := h
    exact ⟨x, rest, next, rfl, (Link.node.inj hl).symm, hx, hrest⟩

end Timeshare
