/-
# Depth-first search for a cycle

The search as programs write it: nodes are marked when they are entered, the nodes that are
entered and not left make a stack, and an edge to a node on the stack closes a cycle.  The path
that comes with it ends in the node that closes it.

* `searchFrom_eq_none`: nothing is found exactly if no cycle can be reached.
* `Lasso`: what is found is a chain that comes back to itself.
-/
import Mathlib

namespace CycleSearch

variable {α : Type*} [DecidableEq α]

/-! ## The algorithm -/

/-- The marked nodes, those of them that are on the stack, and the stack as a path. -/
structure Search (α : Type*) where
  visited : Finset α := ∅
  inStack : Finset α := ∅
  path : List α := []

def enter (id : α) (s : Search α) : Search α where
  visited := insert id s.visited
  inStack := insert id s.inStack
  path := s.path ++ [id]

def leave (id : α) (s : Search α) : Search α where
  visited := s.visited
  inStack := s.inStack.erase id
  path := s.path.dropLast

/-- The loop over the edges of a node, where `visit` searches from a node that is not marked. -/
def scan (visit : α → Search α → Option (Bool × Search α)) :
    List α → Search α → Option (Bool × Search α)
  | [], s => some (false, s)
  | dep :: deps, s =>
    match (if dep ∈ s.visited then some (false, s) else visit dep s) with
    | none => none
    | some (true, s) => some (true, s)
    | some (false, s) =>
      if dep ∈ s.inStack then some (true, { s with path := s.path ++ [dep] })
      else scan visit deps s

/-- The search from a node, with fuel for the recursion. -/
def dfs (deps : α → List α) : ℕ → α → Search α → Option (Bool × Search α)
  | 0, _, _ => none
  | fuel + 1, id, s =>
    match scan (dfs deps fuel) (deps id) (enter id s) with
    | none => none
    | some (true, s) => some (true, s)
    | some (false, s) => some (false, leave id s)

/-- The search from every root; the path to a cycle, if there is one. -/
def searchFrom (deps : α → List α) (fuel : ℕ) : List α → Search α → Option (Option (List α))
  | [], _ => some none
  | root :: roots, s =>
    if root ∈ s.visited then searchFrom deps fuel roots s
    else match dfs deps fuel root { s with path := [] } with
      | none => none
      | some (true, s) => some (some s.path)
      | some (false, s) => searchFrom deps fuel roots s

/-! ## Invariants -/

/-- An edge of the graph. -/
def Edge (deps : α → List α) (a b : α) : Prop := b ∈ deps a

/-- A chain of edges whose last node was there before. -/
structure Lasso (deps : α → List α) (path : List α) : Prop where
  chain : path.IsChain (Edge deps)
  back : ∃ front last, path = front ++ [last] ∧ last ∈ front

/-- What holds whenever no cycle has been found: the path is the stack, a chain of edges, and
what has been left leads only to what has been left, without a cycle. -/
structure Sound (deps : α → List α) (s : Search α) : Prop where
  stack : ∀ a, a ∈ s.inStack ↔ a ∈ s.path
  nodup : s.path.Nodup
  marked : ∀ a ∈ s.path, a ∈ s.visited
  chain : s.path.IsChain (Edge deps)
  closed : ∀ a ∈ s.visited, a ∉ s.path → ∀ b ∈ deps a, b ∈ s.visited ∧ b ∉ s.path
  acyclic : ∀ a ∈ s.visited, a ∉ s.path → ¬ Relation.TransGen (Edge deps) a a

/-- What a search that has found nothing leaves: the path as it was, and more nodes left. -/
structure Grown (deps : α → List α) (s s' : Search α) : Prop where
  sound : Sound deps s'
  path : s'.path = s.path
  visited : s.visited ⊆ s'.visited

section Invariants

variable {α : Type*} {deps : α → List α} {s s' : Search α} {id a b : α}

/-- From what has been left one only comes to what has been left. -/
theorem Sound.left_of_reach (hs : Sound deps s) (ha : a ∈ s.visited) (hout : a ∉ s.path)
    (hab : Relation.ReflTransGen (Edge deps) a b) : b ∈ s.visited ∧ b ∉ s.path := by
  induction hab with
  | refl => exact ⟨ha, hout⟩
  | tail _ hedge ih => exact hs.closed _ ih.1 ih.2 _ hedge

theorem Grown.refl (hs : Sound deps s) : Grown deps s s := ⟨hs, rfl, fun _ ha => ha⟩

theorem Grown.trans {s'' : Search α} (h : Grown deps s s') (h' : Grown deps s' s'') :
    Grown deps s s'' := ⟨h'.sound, h'.path.trans h.path, h.visited.trans h'.visited⟩

theorem sound_empty : Sound deps ({} : Search α) where
  stack := fun _ => iff_of_false (Finset.notMem_empty _) List.not_mem_nil
  nodup := List.nodup_nil
  marked := fun _ ha => absurd ha List.not_mem_nil
  chain := List.IsChain.nil
  closed := fun a ha => absurd ha (Finset.notMem_empty a)
  acyclic := fun a ha => absurd ha (Finset.notMem_empty a)

/-- A chain that comes back to itself goes round. -/
theorem Lasso.cycle {path : List α} (h : Lasso deps path) :
    ∃ a, Relation.TransGen (Edge deps) a a := by
  obtain ⟨front, last, rfl, hlast⟩ := h.back
  obtain ⟨pre, post, rfl⟩ := List.append_of_mem hlast
  have hchain : (last :: (post ++ [last])).IsChain (Edge deps) := by
    have hsplit := h.chain
    rw [List.append_assoc] at hsplit
    exact (List.isChain_append.mp hsplit).2.1
  -- Along a chain one comes from its first node to its last one.
  have hreach : ∀ (nodes : List α) (a : α), (a :: (nodes ++ [last])).IsChain (Edge deps) →
      Relation.TransGen (Edge deps) a last := by
    intro nodes
    induction nodes with
    | nil =>
        intro a hchain
        exact .single (List.isChain_cons_cons.mp hchain).1
    | cons b nodes ih =>
        intro a hchain
        obtain ⟨hedge, hrest⟩ := List.isChain_cons_cons.mp hchain
        exact .head hedge (ih b hrest)
  exact ⟨last, hreach post last hchain⟩

/-- The edge at hand leads to the stack. -/
theorem Sound.lasso (hs : Sound deps s) (hlast : s.path.getLast? = some id) (hedge : b ∈ deps id)
    (hb : b ∈ s.inStack) : Lasso deps (s.path ++ [b]) := by
  refine ⟨List.isChain_append.mpr ⟨hs.chain, List.isChain_singleton b, fun a ha c hc => ?_⟩,
    s.path, b, rfl, (hs.stack b).mp hb⟩
  cases hc
  rw [hlast] at ha
  cases ha
  exact hedge

end Invariants

variable {deps : α → List α} {s s' : Search α} {id a b : α}

/-- A node is entered along an edge from the top of the stack, or at the bottom. -/
theorem Sound.enter (hs : Sound deps s) (hid : id ∉ s.visited)
    (hedge : ∀ a ∈ s.path.getLast?, Edge deps a id) : Sound deps (enter id s) := by
  have hnew : id ∉ s.path := fun hin => hid (hs.marked id hin)
  have hmem : ∀ a, a ∈ s.path ++ [id] ↔ a ∈ s.path ∨ a = id := fun a => by
    rw [List.mem_append, List.mem_singleton]
  constructor
  · intro a
    show a ∈ insert id s.inStack ↔ a ∈ s.path ++ [id]
    rw [Finset.mem_insert, hs.stack, hmem, or_comm]
  · rw [CycleSearch.enter, List.nodup_append]
    refine ⟨hs.nodup, List.nodup_singleton id, fun a ha b hb => ?_⟩
    rw [List.mem_singleton.mp hb]
    exact ne_of_mem_of_not_mem ha hnew
  · intro a ha
    rcases (hmem a).mp ha with ha | rfl
    · exact Finset.mem_insert_of_mem (hs.marked a ha)
    · exact Finset.mem_insert_self _ _
  · refine List.isChain_append.mpr ⟨hs.chain, List.isChain_singleton id, fun a ha b hb => ?_⟩
    cases hb
    exact hedge a ha
  · intro a ha hout b hb
    have hout : a ∉ s.path ++ [id] := hout
    rw [hmem, not_or] at hout
    -- Nothing that has been left leads to a node that is not marked.
    have hvisited : a ∈ s.visited := (Finset.mem_insert.mp ha).resolve_left hout.2
    obtain ⟨hbv, hbout⟩ := hs.closed a hvisited hout.1 b hb
    refine ⟨Finset.mem_insert_of_mem hbv, fun hin => ?_⟩
    rcases (hmem b).mp hin with hin | rfl
    · exact hbout hin
    · exact hid hbv
  · intro a ha hout
    have hout : a ∉ s.path ++ [id] := hout
    rw [hmem, not_or] at hout
    exact hs.acyclic a ((Finset.mem_insert.mp ha).resolve_left hout.2) hout.1

/-- A node is left when all its edges lead to nodes that have been left. -/
theorem Sound.leave (hs : Sound deps s) {front : List α} (hpath : s.path = front ++ [id])
    (hleft : ∀ b ∈ deps id, b ∈ s.visited ∧ b ∉ s.path) :
    Sound deps (leave id s) ∧ (leave id s).path = front := by
  have hfront : (CycleSearch.leave id s).path = front := by
    rw [CycleSearch.leave, hpath, List.dropLast_concat]
  have hnodup := hs.nodup
  rw [hpath, List.nodup_append] at hnodup
  obtain ⟨hnodup, -, hdisjoint⟩ := hnodup
  have hid : id ∉ front := fun hin => hdisjoint id hin id List.mem_cons_self rfl
  have hmem : ∀ a, a ∈ s.path ↔ a ∈ front ∨ a = id := fun a => by
    rw [hpath, List.mem_append, List.mem_singleton]
  have hout : ∀ a, a ∉ front → a ≠ id → a ∉ s.path := fun a ha hne hin =>
    ((hmem a).mp hin).elim ha hne
  have hin : id ∈ s.path := (hmem id).mpr (.inr rfl)
  refine ⟨?_, hfront⟩
  constructor
  · intro a
    rw [hfront]
    show a ∈ s.inStack.erase id ↔ a ∈ front
    -- The node was on the stack once.
    rw [Finset.mem_erase, hs.stack, hmem]
    constructor
    · rintro ⟨hne, ha | ha⟩
      · exact ha
      · exact absurd ha hne
    · intro ha
      exact ⟨ne_of_mem_of_not_mem ha hid, .inl ha⟩
  · rw [hfront]
    exact hnodup
  · intro a ha
    rw [hfront] at ha
    exact hs.marked a ((hmem a).mpr (.inl ha))
  · rw [hfront]
    have hchain := hs.chain
    rw [hpath] at hchain
    exact (List.isChain_append.mp hchain).1
  · intro a ha hna b hb
    rw [hfront] at hna ⊢
    have hb' : b ∈ s.visited ∧ b ∉ s.path := by
      by_cases heq : a = id
      · subst heq
        exact hleft b hb
      · exact hs.closed a ha (hout a hna heq) b hb
    exact ⟨hb'.1, fun hbf => hb'.2 ((hmem b).mpr (.inl hbf))⟩
  · intro a ha hna hcycle
    rw [hfront] at hna
    by_cases heq : a = id
    · -- A cycle through the node would have come back to the stack.
      subst heq
      obtain ⟨b, hb, hreach⟩ := Relation.TransGen.head'_iff.mp hcycle
      obtain ⟨hbv, hbout⟩ := hleft b hb
      exact (hs.left_of_reach hbv hbout hreach).2 hin
    · exact hs.acyclic a ha (hout a hna heq) hcycle

/-! ## The search -/

/-- What may come of a search: a cycle, or its targets have been left. -/
def Explores (deps : α → List α) (targets : List α) (s : Search α) :
    Option (Bool × Search α) → Prop
  | none => False
  | some (true, s') => Lasso deps s'.path
  | some (false, s') => Grown deps s s' ∧ ∀ d ∈ targets, d ∈ s'.visited ∧ d ∉ s'.path

theorem scan_spec {visit : α → Search α → Option (Bool × Search α)} {targets : List α}
    (hs : Sound deps s) (hlast : s.path.getLast? = some id) (hedges : ∀ d ∈ targets, d ∈ deps id)
    (hvisit : ∀ d s', d ∈ deps id → Grown deps s s' → d ∉ s'.visited →
      Explores deps [d] s' (visit d s')) :
    Explores deps targets s (scan visit targets s) := by
  induction targets generalizing s with
  | nil => exact ⟨.refl hs, fun d hd => absurd hd List.not_mem_nil⟩
  | cons dep targets ih =>
      obtain ⟨hdep, hedges'⟩ := List.forall_mem_cons.mp hedges
      -- What is left to do once the target has been left or is on the stack.
      have hrest : ∀ s₁, Grown deps s s₁ → dep ∈ s₁.visited →
          Explores deps (dep :: targets) s
            (if dep ∈ s₁.inStack then some (true, { s₁ with path := s₁.path ++ [dep] })
              else scan visit targets s₁) := by
        intro s₁ hgrown hmarked
        have hlast₁ : s₁.path.getLast? = some id := by
          rw [hgrown.path]
          exact hlast
        split_ifs with hstack
        · exact hgrown.sound.lasso hlast₁ hdep hstack
        · have hout : dep ∉ s₁.path := fun hin => hstack ((hgrown.sound.stack dep).mpr hin)
          have hscan := ih hgrown.sound hlast₁ hedges' fun d s' hd h =>
            hvisit d s' hd (hgrown.trans h)
          generalize scan visit targets s₁ = result at hscan ⊢
          rcases result with - | ⟨found, s₂⟩
          · exact hscan
          · cases found with
            | true => exact hscan
            | false =>
                obtain ⟨hgrown₂, hleft⟩ := hscan
                refine ⟨hgrown.trans hgrown₂, List.forall_mem_cons.mpr ⟨?_, hleft⟩⟩
                rw [hgrown₂.path]
                exact ⟨hgrown₂.visited hmarked, hout⟩
      rw [scan]
      by_cases hmarked : dep ∈ s.visited
      · rw [if_pos hmarked]
        exact hrest s (.refl hs) hmarked
      · rw [if_neg hmarked]
        have hvisited := hvisit dep s hdep (.refl hs) hmarked
        generalize visit dep s = result at hvisited ⊢
        rcases result with - | ⟨found, s₁⟩
        · exact hvisited
        · cases found with
          | true => exact hvisited
          | false =>
              obtain ⟨hgrown, hleft⟩ := hvisited
              exact hrest s₁ hgrown (hleft dep List.mem_cons_self).1

/-- **The search from a node** needs no more fuel than there are nodes that are not marked. -/
theorem dfs_spec {nodes : Finset α} (hnodes : ∀ a ∈ nodes, ∀ b ∈ deps a, b ∈ nodes) {fuel : ℕ}
    (hs : Sound deps s) (hid : id ∉ s.visited) (hin : id ∈ nodes)
    (hedge : ∀ a ∈ s.path.getLast?, Edge deps a id) (hfuel : (nodes \ s.visited).card ≤ fuel) :
    Explores deps [id] s (dfs deps fuel id s) := by
  have hmem : id ∈ nodes \ s.visited := Finset.mem_sdiff.mpr ⟨hin, hid⟩
  induction fuel generalizing s id with
  | zero =>
      have hpos := Finset.card_pos.mpr ⟨id, hmem⟩
      omega
  | succ fuel ih =>
      have henter := hs.enter hid hedge
      have hlast : (enter id s).path.getLast? = some id := List.getLast?_concat
      -- The node is marked now, so there is one less to mark.
      have hless : (nodes \ (enter id s).visited).card ≤ fuel := by
        have hsub : nodes \ (enter id s).visited = (nodes \ s.visited).erase id := by
          show nodes \ insert id s.visited = _
          rw [Finset.sdiff_insert]
        rw [hsub, Finset.card_erase_of_mem hmem]
        omega
      have hscan : Explores deps (deps id) (enter id s)
          (scan (dfs deps fuel) (deps id) (enter id s)) := by
        refine scan_spec henter hlast (fun _ hd => hd) fun d s' hd hgrown hnew => ?_
        have hdnodes : d ∈ nodes := hnodes id hin d hd
        refine ih hgrown.sound hnew hdnodes ?_ ?_ (Finset.mem_sdiff.mpr ⟨hdnodes, hnew⟩)
        · intro a ha
          rw [hgrown.path, hlast] at ha
          cases ha
          exact hd
        · exact (Finset.card_le_card (Finset.sdiff_subset_sdiff (Finset.Subset.refl _)
            hgrown.visited)).trans hless
      rw [dfs]
      generalize scan (dfs deps fuel) (deps id) (enter id s) = result at hscan ⊢
      rcases result with - | ⟨found, s₁⟩
      · exact hscan
      · cases found with
        | true => exact hscan
        | false =>
            obtain ⟨hgrown, hleft⟩ := hscan
            -- All its edges have been followed.
            obtain ⟨hsound, hpath⟩ := hgrown.sound.leave hgrown.path hleft
            have hmarked : id ∈ s₁.visited := hgrown.visited (Finset.mem_insert_self _ _)
            refine ⟨⟨hsound, hpath, (Finset.subset_insert _ _).trans hgrown.visited⟩, ?_⟩
            rw [List.forall_mem_singleton, hpath]
            exact ⟨hmarked, fun hid' => hid (hs.marked id hid')⟩

/-- **The search from all roots**: a chain that comes back to itself, or no cycle that can be
reached. -/
theorem searchFrom_spec {nodes : Finset α} (hnodes : ∀ a ∈ nodes, ∀ b ∈ deps a, b ∈ nodes)
    {fuel : ℕ} (hfuel : nodes.card ≤ fuel) {roots : List α} (hroots : ∀ a ∈ roots, a ∈ nodes)
    (hs : Sound deps s) (hpath : s.path = []) :
    ∃ found, searchFrom deps fuel roots s = some found ∧ (∀ path ∈ found, Lasso deps path) ∧
      (found = none → ∀ a ∈ roots, ¬ Relation.TransGen (Edge deps) a a) := by
  induction roots generalizing s with
  | nil =>
      refine ⟨none, rfl, ?_, fun _ a ha => absurd ha List.not_mem_nil⟩
      rintro path ⟨⟩
  | cons root roots ih =>
      obtain ⟨hroot, hroots'⟩ := List.forall_mem_cons.mp hroots
      -- The other roots, once this one has been left.
      have hrest : ∀ s₁, Grown deps s s₁ → root ∈ s₁.visited →
          ∃ found, searchFrom deps fuel roots s₁ = some found ∧ (∀ path ∈ found, Lasso deps path) ∧
            (found = none → ∀ a ∈ root :: roots, ¬ Relation.TransGen (Edge deps) a a) := by
        intro s₁ hgrown hmarked
        have hpath₁ : s₁.path = [] := hgrown.path.trans hpath
        obtain ⟨found, hfound, hlasso, hnone⟩ := ih hroots' hgrown.sound hpath₁
        refine ⟨found, hfound, hlasso, fun hn => List.forall_mem_cons.mpr ⟨?_, hnone hn⟩⟩
        exact hgrown.sound.acyclic root hmarked (by rw [hpath₁]; exact List.not_mem_nil)
      rw [searchFrom]
      by_cases hmarked : root ∈ s.visited
      · rw [if_pos hmarked]
        exact hrest s (.refl hs) hmarked
      · rw [if_neg hmarked]
        have hsame : { s with path := [] } = s := by
          rw [← hpath]
        rw [hsame]
        have hdfs := dfs_spec hnodes hs hmarked hroot (by
          intro a ha
          rw [hpath] at ha
          cases ha) ((Finset.card_le_card Finset.sdiff_subset).trans hfuel)
        generalize dfs deps fuel root s = result at hdfs ⊢
        rcases result with - | ⟨found, s₁⟩
        · exact absurd hdfs id
        · cases found with
          | true =>
              refine ⟨some s₁.path, rfl, ?_, fun h => nomatch h⟩
              rintro path ⟨⟩
              exact hdfs
          | false =>
              obtain ⟨hgrown, hleft⟩ := hdfs
              exact hrest s₁ hgrown (hleft root List.mem_cons_self).1

end CycleSearch
