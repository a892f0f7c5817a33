import Mathlib

/-! # Ascending lists of disjoint half-open intervals

    A list of items carrying bounds `lo x < hi x` in a linear order, sorted so
    that each item ends before the next begins.  The items and the gaps between
    them cut the order into cells: a point lies in at most one item
    (`Ascending.eq_of_contains`), and a point in no item lies in one gap
    (`IsGap`), from the greatest end below it to the least start above it. -/

namespace Intervals

variable {α β : Type} [LinearOrder α] {lo hi : β → α}

/-- The item `x` contains the point `a`. -/
def Contains (lo hi : β → α) (x : β) (a : α) : Prop := lo x ≤ a ∧ a < hi x

/-- Nonempty items in ascending order without overlap. -/
structure Ascending (lo hi : β → α) (L : List β) : Prop where
  nonempty : ∀ x ∈ L, lo x < hi x
  sorted : L.Pairwise (fun x y => hi x ≤ lo y)

theorem Ascending.tail {x : β} {L : List β} (h : Ascending lo hi (x :: L)) :
    Ascending lo hi L := by
  obtain ⟨hne, hs⟩ := h
  exact ⟨fun y hy => hne y (List.mem_cons_of_mem _ hy), (List.pairwise_cons.mp hs).2⟩

/-- An item in front of everything that is there. -/
theorem Ascending.cons {x : β} {L : List β} (h : Ascending lo hi L) (hx : lo x < hi x)
    (hle : ∀ y ∈ L, hi x ≤ lo y) : Ascending lo hi (x :: L) := by
  refine ⟨?_, List.pairwise_cons.mpr ⟨hle, h.sorted⟩⟩
  intro y hy
  rcases List.mem_cons.mp hy with rfl | hy
  · exact hx
  · exact h.nonempty y hy

theorem Ascending.head_lt {x : β} {L : List β} (h : Ascending lo hi (x :: L)) : lo x < hi x :=
  h.nonempty x (List.mem_cons_self ..)

/-- Everything behind the head starts no earlier than the head ends. -/
theorem Ascending.head_le {x : β} {L : List β} (h : Ascending lo hi (x :: L)) :
    ∀ y ∈ L, hi x ≤ lo y :=
  (List.pairwise_cons.mp h.sorted).1

theorem Ascending.sublist {L M : List β} (h : Ascending lo hi L) (hs : M.Sublist L) :
    Ascending lo hi M := by
  obtain ⟨hne, hp⟩ := h
  exact ⟨fun x hx => hne x (hs.subset hx), hp.sublist hs⟩

/-- Two items are the same or one ends before the other begins. -/
theorem Ascending.trichotomy {L : List β} (h : Ascending lo hi L) :
    ∀ x ∈ L, ∀ y ∈ L, x = y ∨ hi x ≤ lo y ∨ hi y ≤ lo x := by
  induction L with
  | nil => intro x hx; exact nomatch hx
  | cons z L ih =>
      intro x hx y hy
      rcases List.mem_cons.mp hx with rfl | hx
      · rcases List.mem_cons.mp hy with rfl | hy
        · exact Or.inl rfl
        · exact Or.inr (Or.inl (h.head_le y hy))
      · rcases List.mem_cons.mp hy with hyz | hy
        · rw [hyz]
          exact Or.inr (Or.inr (h.head_le x hx))
        · exact ih h.tail x hx y hy

/-- **At most one item contains a point.** -/
theorem Ascending.eq_of_contains {L : List β} (h : Ascending lo hi L) {x y : β} {a : α}
    (hx : x ∈ L) (hy : y ∈ L) (hxa : Contains lo hi x a) (hya : Contains lo hi y a) :
    x = y := by
  rcases h.trichotomy x hx y hy with heq | hle | hle
  · exact heq
  · exact absurd (lt_of_lt_of_le hxa.2 (hle.trans hya.1)) (lt_irrefl a)
  · exact absurd (lt_of_lt_of_le hya.2 (hle.trans hxa.1)) (lt_irrefl a)

/-- Items with the same end are the same. -/
theorem Ascending.eq_of_hi_eq {L : List β} (h : Ascending lo hi L) {x y : β}
    (hx : x ∈ L) (hy : y ∈ L) (heq : hi x = hi y) : x = y := by
  rcases h.trichotomy x hx y hy with h' | hle | hle
  · exact h'
  · exact absurd (hle.trans_lt (h.nonempty y hy)) (not_lt.mpr heq.ge)
  · exact absurd (hle.trans_lt (h.nonempty x hx)) (not_lt.mpr heq.le)

/-- Items with the same start are the same. -/
theorem Ascending.eq_of_lo_eq {L : List β} (h : Ascending lo hi L) {x y : β}
    (hx : x ∈ L) (hy : y ∈ L) (heq : lo x = lo y) : x = y :=
  h.eq_of_contains hx hy ⟨le_rfl, h.nonempty x hx⟩ ⟨heq.ge, heq ▸ h.nonempty y hy⟩

/-- Starts increase strictly along the list. -/
theorem Ascending.lo_lt {L : List β} (h : Ascending lo hi L) :
    L.Pairwise (fun x y => lo x < lo y) := by
  refine List.Pairwise.imp_of_mem ?_ h.sorted
  intro x y hx _ hle
  exact (h.nonempty x hx).trans_le hle

/-- Ends increase strictly along the list. -/
theorem Ascending.hi_lt {L : List β} (h : Ascending lo hi L) :
    L.Pairwise (fun x y => hi x < hi y) := by
  refine List.Pairwise.imp_of_mem ?_ h.sorted
  intro x y _ hy hle
  exact hle.trans_lt (h.nonempty y hy)

/-- The last item has the greatest start and the greatest end. -/
theorem Ascending.le_last {L : List β} (h : Ascending lo hi L) {z : β}
    (hz : L.getLast? = some z) : ∀ x ∈ L, lo x ≤ lo z ∧ hi x ≤ hi z := by
  induction L with
  | nil => intro x hx; exact nomatch hx
  | cons y L ih =>
      intro x hx
      cases L with
      | nil =>
          obtain rfl : y = z := Option.some.inj hz
          obtain rfl : x = y := List.mem_singleton.mp hx
          exact ⟨le_rfl, le_rfl⟩
      | cons y' L =>
          have hz' : (y' :: L).getLast? = some z := by
            rw [← hz, List.getLast?_cons_cons]
          rcases List.mem_cons.mp hx with rfl | hx
          · have hmem : z ∈ y' :: L := List.mem_of_getLast? hz'
            have hle := h.head_le z hmem
            exact ⟨(h.head_lt.trans_le hle).le, hle.trans (h.tail.nonempty z hmem).le⟩
          · exact ih h.tail hz' x hx

/-! ## Neighbours

    `[p, p'] <:+: L` says that `p'` follows `p` in `L`. -/

theorem pair_infix_cons {p p' x y : β} {L : List β} :
    [p, p'] <:+: x :: y :: L ↔ (p = x ∧ p' = y) ∨ [p, p'] <:+: y :: L := by
  rw [List.infix_cons_iff, List.cons_prefix_cons, List.singleton_prefix_cons_iff]

/-- Neighbours in the image of a list are images of neighbours. -/
theorem pair_infix_map {γ : Type} {f : β → γ} {p p' : γ} {L : List β} (h : [p, p'] <:+: L.map f) :
    ∃ x x', [x, x'] <:+: L ∧ p = f x ∧ p' = f x' := by
  obtain ⟨pair, hpair, heq⟩ := List.infix_map_iff.mp h
  obtain ⟨x, rest, rfl, hx, hrest⟩ := List.map_eq_cons_iff.mp heq.symm
  obtain ⟨x', rest', rfl, hx', hnil⟩ := List.map_eq_cons_iff.mp hrest
  obtain rfl := List.map_eq_nil_iff.mp hnil
  exact ⟨x, x', hpair, hx.symm, hx'.symm⟩

/-- The neighbours of a list, from the front to the back. -/
def neighbours (L : List β) : List (β × β) := L.zip L.tail

theorem neighbours_cons_cons (x y : β) (L : List β) :
    neighbours (x :: y :: L) = (x, y) :: neighbours (y :: L) := rfl

/-- An element at the back adds one pair. -/
theorem neighbours_concat (L : List β) (x y : β) :
    neighbours (L ++ [x] ++ [y]) = neighbours (L ++ [x]) ++ [(x, y)] := by
  induction L with
  | nil => rfl
  | cons z L ih =>
      cases L with
      | nil => rfl
      | cons z' L => exact congrArg ((z, z') :: ·) ih

theorem mem_neighbours {p p' : β} {L : List β} :
    (p, p') ∈ neighbours L ↔ [p, p'] <:+: L := by
  induction L with
  | nil =>
      constructor
      · intro h
        exact nomatch h
      · intro h
        exact absurd h.length_le (Nat.not_succ_le_zero 1)
  | cons x L ih =>
      cases L with
      | nil =>
          constructor
          · intro h
            exact nomatch h
          · intro h
            exact absurd h.length_le (Nat.not_succ_le_self 1)
      | cons y L =>
          rw [neighbours_cons_cons, List.mem_cons, Prod.mk.injEq, ih, pair_infix_cons]

/-- An element at the back adds one pair of neighbours. -/
theorem pair_infix_concat {p p' x y : β} {L : List β} :
    [p, p'] <:+: L ++ [x] ++ [y] ↔ [p, p'] <:+: L ++ [x] ∨ (p = x ∧ p' = y) := by
  rw [← mem_neighbours, neighbours_concat, List.mem_append, mem_neighbours, List.mem_singleton,
    Prod.mk.injEq]

/-- A chain is a relation between neighbours. -/
theorem isChain_iff_forall_pair {R : β → β → Prop} {L : List β} :
    L.IsChain R ↔ ∀ p p', [p, p'] <:+: L → R p p' := by
  constructor
  · intro h p p' hp
    have hpair := List.IsChain.infix h hp
    exact List.isChain_pair.mp hpair
  · intro h
    refine List.isChain_iff_forall_rel_of_append_cons_cons.mpr ?_
    rintro p p' pre post rfl
    exact h p p' (List.infix_append' pre [p, p'] post)

/-- Where `f` does not decrease nothing lies strictly between two neighbours. -/
theorem le_or_le_of_neighbours {f : β → α} {L : List β} {p p' : β} (hp : [p, p'] <:+: L)
    (h : L.Pairwise (fun x y => f x ≤ f y)) : ∀ m ∈ L, f m ≤ f p ∨ f p' ≤ f m := by
  obtain ⟨pre, post, rfl⟩ := hp
  rw [List.append_assoc] at h ⊢
  obtain ⟨-, htail, hcross⟩ := List.pairwise_append.mp h
  have hpost := (List.pairwise_cons.mp (List.pairwise_cons.mp htail).2).1
  intro m hm
  rcases List.mem_append.mp hm with hm | hm
  · exact Or.inl (hcross m hm p (List.mem_cons_self ..))
  · rcases List.mem_cons.mp hm with rfl | hm
    · exact Or.inl le_rfl
    · rcases List.mem_cons.mp hm with rfl | hm
      · exact Or.inr le_rfl
      · exact Or.inr (hpost m hm)

/-- Where one item ends another begins: the two are neighbours. -/
theorem Ascending.pair_of_touching {L : List β} (h : Ascending lo hi L) {x y : β}
    (hx : x ∈ L) (hy : y ∈ L) (heq : hi x = lo y) : [x, y] <:+: L := by
  induction L with
  | nil => exact nomatch hx
  | cons z L ih =>
      have hxy : x ≠ y := by
        rintro rfl
        exact absurd (h.nonempty x hx) (not_lt.mpr heq.le)
      rcases List.mem_cons.mp hx with rfl | hx'
      · have hy' : y ∈ L := (List.mem_cons.mp hy).resolve_left hxy.symm
        cases L with
        | nil => exact nomatch hy'
        | cons z' L =>
            rcases List.mem_cons.mp hy' with rfl | hy''
            · exact (List.prefix_append [x, y] L).isInfix
            · -- `z'` would have to fit between `x` and `y`
              have hle : hi x ≤ lo z' := h.head_le z' (List.mem_cons_self ..)
              have hle' : hi z' ≤ lo y := h.tail.head_le y hy''
              have hlt : lo z' < hi z' := h.tail.head_lt
              exact absurd (hle.trans_lt (hlt.trans_le hle')) (not_lt.mpr heq.ge)
      · rcases List.mem_cons.mp hy with rfl | hy'
        · have hle : hi y ≤ lo x := h.head_le x hx'
          have hlt : lo x < hi x := h.nonempty x hx
          exact absurd (hle.trans_lt (hlt.trans_le heq.le)) (not_lt.mpr h.head_lt.le)
        · exact List.infix_cons (ih h.tail hx' hy')

/-- The items that meet the interval from `a` to `b` are those between the items
    that end by `a` and the items that begin from `b` on. -/
theorem Ascending.filter_segment {pre mid post : List β} {z : β} {a b : α}
    (h : Ascending lo hi (pre ++ (mid ++ z :: post))) (hpre : ∀ x ∈ pre, hi x ≤ a)
    (hhead : ∀ x ∈ (mid ++ [z]).head?, a < hi x) (hmid : ∀ x ∈ mid, hi x ≤ b) (hz : b ≤ lo z) :
    (pre ++ (mid ++ z :: post)).filter (fun x => decide (a < hi x ∧ lo x < b)) = mid := by
  have hrest : Ascending lo hi (mid ++ z :: post) := h.sublist (List.sublist_append_right _ _)
  have hback : Ascending lo hi (z :: post) := hrest.sublist (List.sublist_append_right _ _)
  have hfilterPre : pre.filter (fun x => decide (a < hi x ∧ lo x < b)) = [] := by
    refine List.filter_eq_nil_iff.mpr ?_
    intro x hx hmeets
    exact absurd (of_decide_eq_true hmeets).1 (not_lt.mpr (hpre x hx))
  have hfilterMid : mid.filter (fun x => decide (a < hi x ∧ lo x < b)) = mid := by
    refine List.filter_eq_self.mpr ?_
    intro x hx
    have hlt : lo x < hi x := hrest.nonempty x (List.mem_append_left _ hx)
    refine decide_eq_true ⟨?_, hlt.trans_le (hmid x hx)⟩
    cases mid with
    | nil => exact nomatch hx
    | cons y mid =>
        have hy : a < hi y := hhead y rfl
        rcases List.mem_cons.mp hx with rfl | hx
        · exact hy
        · have hends := (List.pairwise_cons.mp hrest.hi_lt).1 x (List.mem_append_left _ hx)
          exact hy.trans hends
  have hfilterPost : (z :: post).filter (fun x => decide (a < hi x ∧ lo x < b)) = [] := by
    refine List.filter_eq_nil_iff.mpr ?_
    intro x hx hmeets
    have hfrom : lo z ≤ lo x := by
      rcases List.mem_cons.mp hx with rfl | hx
      · exact le_rfl
      · exact hback.head_lt.le.trans (hback.head_le x hx)
    exact absurd (of_decide_eq_true hmeets).2 (not_lt.mpr (hz.trans hfrom))
  rw [List.filter_append, List.filter_append, hfilterPre, hfilterMid, hfilterPost,
    List.nil_append, List.append_nil]

/-- Of a list cut in three, two filters that agree behind the middle part, and of
    which the first takes it and the second leaves it, differ by that part. -/
theorem filter_cut {p q : β → Bool} {pre mid post : List β}
    (hpre : ∀ x ∈ pre, p x = false ∧ q x = false) (hmid : ∀ x ∈ mid, p x = true ∧ q x = false)
    (hpost : ∀ x ∈ post, p x = q x) :
    (pre ++ (mid ++ post)).filter p = mid ++ (pre ++ (mid ++ post)).filter q := by
  have hpreP : pre.filter p = [] :=
    List.filter_eq_nil_iff.mpr (by simpa using fun x hx => (hpre x hx).1)
  have hpreQ : pre.filter q = [] :=
    List.filter_eq_nil_iff.mpr (by simpa using fun x hx => (hpre x hx).2)
  have hmidP : mid.filter p = mid := List.filter_eq_self.mpr (fun x hx => (hmid x hx).1)
  have hmidQ : mid.filter q = [] :=
    List.filter_eq_nil_iff.mpr (by simpa using fun x hx => (hmid x hx).2)
  rw [List.filter_append, List.filter_append, List.filter_append, List.filter_append, hpreP, hpreQ,
    hmidP, hmidQ, List.filter_congr hpost]
  rfl

/-! ## Matched lists -/

/-- Everything in the first of two matched lists has a partner in the second. -/
theorem exists_of_forall₂ {γ : Type} {P : γ → β → Prop} {l : List γ} {L : List β}
    (h : List.Forall₂ P l L) : ∀ x ∈ l, ∃ y ∈ L, P x y := by
  induction h with
  | nil =>
      intro x hx
      exact nomatch hx
  | cons hxy hrest ih =>
      intro x hx
      rcases List.mem_cons.mp hx with rfl | hx
      · exact ⟨_, List.mem_cons_self .., hxy⟩
      · obtain ⟨y, hy, hP⟩ := ih x hx
        exact ⟨y, List.mem_cons_of_mem _ hy, hP⟩

/-- A list that is matched with an ordered one is ordered. -/
theorem pairwise_of_forall₂ {γ : Type} {P : γ → β → Prop} {S : β → β → Prop} {T : γ → γ → Prop}
    (hT : ∀ x y x' y', P x y → P x' y' → S y y' → T x x') {l : List γ} {L : List β}
    (h : List.Forall₂ P l L) (hs : L.Pairwise S) : l.Pairwise T := by
  induction h with
  | nil => exact List.Pairwise.nil
  | cons hxy hrest ih =>
      obtain ⟨hhead, htail⟩ := List.pairwise_cons.mp hs
      refine List.pairwise_cons.mpr ⟨?_, ih htail⟩
      intro x' hx'
      obtain ⟨y', hy', hP⟩ := exists_of_forall₂ hrest x' hx'
      exact hT _ _ _ _ hxy hP (hhead y' hy')

/-- Matched lists are cut in the same place. -/
theorem forall₂_cut {γ : Type} {P : γ → β → Prop} {l : List γ} {x : γ} {l' : List γ} {L : List β}
    (h : List.Forall₂ P (l ++ x :: l') L) :
    ∃ M y M', L = M ++ y :: M' ∧ List.Forall₂ P l M ∧ P x y ∧ List.Forall₂ P l' M' := by
  induction l generalizing L with
  | nil =>
      cases h with
      | cons hxy hrest => exact ⟨[], _, _, rfl, List.Forall₂.nil, hxy, hrest⟩
  | cons z l ih =>
      cases h with
      | cons hz hrest =>
          obtain ⟨M, y, M', rfl, hM, hxy, hM'⟩ := ih hrest
          exact ⟨_ :: M, y, M', rfl, List.Forall₂.cons hz hM, hxy, hM'⟩

/-! ## Gaps -/

/-- `g` is the gap around `a`: from the greatest end up to `a` (`bot` if there
    is none) to the least start above `a` (`top` if there is none). -/
structure IsGap (lo hi : β → α) (bot top : α) (L : List β) (a : α) (g : α × α) : Prop where
  lower : IsGreatest (insert bot {e | ∃ x ∈ L, hi x = e ∧ e ≤ a}) g.1
  upper : IsLeast (insert top {b | ∃ x ∈ L, lo x = b ∧ a < b}) g.2

theorem isGap_nil (bot top a : α) : IsGap lo hi bot top [] a (bot, top) := by
  refine ⟨⟨Set.mem_insert .., ?_⟩, ⟨Set.mem_insert .., ?_⟩⟩
  · rintro e (rfl | ⟨x, hx, -⟩)
    · exact le_rfl
    · exact nomatch hx
  · rintro e (rfl | ⟨x, hx, -⟩)
    · exact le_rfl
    · exact nomatch hx

/-- A point below the first item lies in the gap in front of it. -/
theorem Ascending.isGap_head {x : β} {L : List β} (h : Ascending lo hi (x :: L))
    {bot top a : α} (ha : a < lo x) (htop : lo x ≤ top) :
    IsGap lo hi bot top (x :: L) a (bot, lo x) := by
  have hlo : ∀ y ∈ x :: L, lo x ≤ lo y := by
    intro y hy
    rcases List.mem_cons.mp hy with rfl | hy
    · exact le_rfl
    · exact (h.head_lt.trans_le (h.head_le y hy)).le
  refine ⟨⟨Set.mem_insert .., ?_⟩,
    ⟨Set.mem_insert_of_mem _ ⟨x, List.mem_cons_self .., rfl, ha⟩, ?_⟩⟩
  · rintro e (rfl | ⟨y, hy, rfl, hle⟩)
    · exact le_rfl
    · have hlt := ha.trans_le (hlo y hy) |>.trans (h.nonempty y hy)
      exact absurd hle (not_le.mpr hlt)
  · rintro b (rfl | ⟨y, hy, rfl, -⟩)
    · exact htop
    · exact hlo y hy

/-- Above the first item, the gaps are those of the rest of the list with the
    first end as their bottom. -/
theorem IsGap.cons {x : β} {L : List β} {bot top a : α} {g : α × α}
    (hx : lo x < hi x) (hbot : bot ≤ lo x) (ha : hi x ≤ a)
    (h : IsGap lo hi (hi x) top L a g) : IsGap lo hi bot top (x :: L) a g := by
  obtain ⟨⟨hmem, hub⟩, ⟨hmem', hlb⟩⟩ := h
  refine ⟨⟨?_, ?_⟩, ⟨?_, ?_⟩⟩
  · rcases hmem with heq | ⟨y, hy, he, hle⟩
    · exact Or.inr ⟨x, List.mem_cons_self .., heq.symm, heq ▸ ha⟩
    · exact Or.inr ⟨y, List.mem_cons_of_mem _ hy, he, hle⟩
  · rintro e (rfl | ⟨y, hy, rfl, hle⟩)
    · exact (hbot.trans hx.le).trans (hub (Set.mem_insert ..))
    · rcases List.mem_cons.mp hy with rfl | hy
      · exact hub (Set.mem_insert ..)
      · exact hub (Set.mem_insert_of_mem _ ⟨y, hy, rfl, hle⟩)
  · rcases hmem' with heq | ⟨y, hy, hb, hlt⟩
    · exact Or.inl heq
    · exact Or.inr ⟨y, List.mem_cons_of_mem _ hy, hb, hlt⟩
  · rintro b (rfl | ⟨y, hy, rfl, hlt⟩)
    · exact hlb (Set.mem_insert ..)
    · rcases List.mem_cons.mp hy with rfl | hy
      · exact absurd (hx.trans_le ha) (not_lt.mpr hlt.le)
      · exact hlb (Set.mem_insert_of_mem _ ⟨y, hy, rfl, hlt⟩)

end Intervals
