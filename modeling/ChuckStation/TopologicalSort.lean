/-
# Topological sorting with a stack

Kahn's algorithm as programs write it: edges are collected per target, with a count of what
each node waits for; nodes that wait for nothing go on a stack; a node that is taken off the
stack is put out, and releases those that wait for it.  Nodes may name targets that are no
nodes, name one twice, or lie on cycles.

What comes out is every node from which all chains of dependencies end, once, and behind all
its dependencies.  The order in which the nodes are gone over is open.
-/
import Mathlib

namespace TopologicalSort

variable {α : Type*} [DecidableEq α]

/-! ## The algorithm -/

/-- Who waits for a node, and for how much a node waits. -/
structure Graph (α : Type*) where
  adj : α → List α
  inDegree : α → ℤ

/-- The node `k` waits for `dep`. -/
def addEdge (k : α) (g : Graph α) (dep : α) : Graph α where
  adj := Function.update g.adj dep (g.adj dep ++ [k])
  inDegree := Function.update g.inDegree k (g.inDegree k + 1)

/-- A node with all it depends on. -/
def addNode (g : Graph α) (node : α × List α) : Graph α := node.2.foldl (addEdge node.1) g

def graphOf (visit : List (α × List α)) : Graph α := visit.foldl addNode ⟨fun _ => [], fun _ => 0⟩

/-- The counts, the stack with its top first, and what was put out. -/
structure Progress (α : Type*) where
  inDegree : α → ℤ
  stack : List α
  order : List α

/-- The node has one thing less to wait for. -/
def release (s : Progress α) (nxt : α) : Progress α where
  inDegree := Function.update s.inDegree nxt (s.inDegree nxt - 1)
  stack := if s.inDegree nxt - 1 = 0 then nxt :: s.stack else s.stack
  order := s.order

/-- The loop, with fuel. -/
def drain (adj : α → List α) : ℕ → Progress α → Progress α
  | 0, s => s
  | fuel + 1, s =>
    match s.stack with
    | [] => s
    | cur :: stack =>
      drain adj fuel ((adj cur).foldl release ⟨s.inDegree, stack, s.order ++ [cur]⟩)

/-- The start: the nodes that wait for nothing, the last of them on top. -/
def start (g : Graph α) (heads : List α) : Progress α where
  inDegree := g.inDegree
  stack := (heads.filter fun k => g.inDegree k = 0).reverse
  order := []

/-- The sort.  It goes over the nodes in the order of `visit` to collect the edges, and in the
order of `heads` to find those it starts with. -/
def topoSort (visit : List (α × List α)) (heads : List α) : List α :=
  (drain (graphOf visit).adj visit.length (start (graphOf visit) heads)).order

/-! ## The graph -/

/-- What a node depends on. -/
def depsOf (visit : List (α × List α)) (k : α) : List α :=
  visit.flatMap fun node => if node.1 = k then node.2 else []

section Graph

variable {visit : List (α × List α)} {g : Graph α} {k d x : α} {deps : List α}

theorem addNode_adj : ((addNode g (k, deps)).adj d).count x =
    (g.adj d).count x + if k = x then deps.count d else 0 := by
  rw [addNode]
  dsimp only
  induction deps generalizing g with
  | nil => simp
  | cons dep deps ih =>
      rw [List.foldl_cons, ih]
      dsimp only [addEdge]
      by_cases hd : d = dep
      · subst hd
        rw [Function.update_self, List.count_append, List.count_singleton, List.count_cons_self]
        by_cases hk : k = x
        · simp [hk]
          omega
        · simp [hk]
      · rw [Function.update_of_ne hd, List.count_cons_of_ne (Ne.symm hd)]

theorem addNode_inDegree : (addNode g (k, deps)).inDegree x =
    g.inDegree x + if k = x then (deps.length : ℤ) else 0 := by
  rw [addNode]
  dsimp only
  induction deps generalizing g with
  | nil => simp
  | cons dep deps ih =>
      rw [List.foldl_cons, ih]
      dsimp only [addEdge]
      by_cases hk : k = x
      · subst hk
        rw [Function.update_self, if_pos rfl, if_pos rfl, List.length_cons]
        omega
      · rw [Function.update_of_ne (Ne.symm hk), if_neg hk, if_neg hk]

/-- **The edges**: a node waits for another as often as it names it. -/
theorem graphOf_spec (visit : List (α × List α)) :
    (∀ d x, ((graphOf visit).adj d).count x = (depsOf visit x).count d) ∧
      ∀ x, (graphOf visit).inDegree x = (depsOf visit x).length := by
  have hfold : ∀ (visit : List (α × List α)) (g : Graph α),
      (∀ d x, ((visit.foldl addNode g).adj d).count x =
        (g.adj d).count x + (depsOf visit x).count d) ∧
      ∀ x, (visit.foldl addNode g).inDegree x = g.inDegree x + (depsOf visit x).length := by
    intro visit
    induction visit with
    | nil => simp [depsOf]
    | cons node visit ih =>
        intro g
        obtain ⟨hadj, hdegree⟩ := ih (addNode g node)
        have hdeps : ∀ x, depsOf (node :: visit) x =
            (if node.1 = x then node.2 else []) ++ depsOf visit x := fun x => List.flatMap_cons
        constructor
        · intro d x
          rw [List.foldl_cons, hadj, addNode_adj, hdeps, List.count_append]
          split_ifs
          · omega
          · simp
        · intro x
          rw [List.foldl_cons, hdegree, addNode_inDegree, hdeps, List.length_append]
          split_ifs
          · push_cast
            omega
          · simp
  obtain ⟨hadj, hdegree⟩ := hfold visit ⟨fun _ => [], fun _ => 0⟩
  refine ⟨fun d x => ?_, fun x => ?_⟩
  · rw [graphOf, hadj, List.count_nil, Nat.zero_add]
  · rw [graphOf, hdegree, Int.zero_add]

theorem depsOf_eq (hnodup : (visit.map Prod.fst).Nodup) (h : (k, deps) ∈ visit) :
    depsOf visit k = deps := by
  induction visit with
  | nil => cases h
  | cons node visit ih =>
      rw [List.map_cons, List.nodup_cons] at hnodup
      have hcons : depsOf (node :: visit) k =
          (if node.1 = k then node.2 else []) ++ depsOf visit k := List.flatMap_cons
      rcases List.mem_cons.mp h with rfl | h
      · have hnone : depsOf visit k = [] := by
          rw [depsOf, List.flatMap_eq_nil_iff]
          intro other hother
          rw [if_neg]
          intro heq
          exact hnodup.1 (List.mem_map.mpr ⟨other, hother, heq⟩)
        rw [hcons, if_pos rfl, hnone, List.append_nil]
      · have hne : node.1 ≠ k := by
          intro heq
          exact hnodup.1 (List.mem_map.mpr ⟨(k, deps), h, heq.symm⟩)
        rw [hcons, if_neg hne, List.nil_append, ih hnodup.2 h]

/-- Only nodes wait. -/
theorem mem_of_mem_depsOf (h : d ∈ depsOf visit k) : k ∈ visit.map Prod.fst := by
  rw [depsOf, List.mem_flatMap] at h
  obtain ⟨node, hnode, hd⟩ := h
  split_ifs at hd with heq
  · exact List.mem_map.mpr ⟨node, hnode, heq⟩
  · cases hd

end Graph

/-! ## One round -/

section Release

variable {s : Progress α} {k : α} {l : List α}

theorem inDegree_release (s : Progress α) (a k : α) :
    (release s a).inDegree k = s.inDegree k - if a = k then 1 else 0 := by
  dsimp only [release]
  by_cases hk : a = k
  · subst hk
    rw [Function.update_self, if_pos rfl]
  · rw [Function.update_of_ne (Ne.symm hk), if_neg hk, sub_zero]

theorem count_cons_eq (a k : α) (l : List α) :
    ((a :: l).count k : ℤ) = l.count k + if a = k then 1 else 0 := by
  by_cases hk : a = k
  · subst hk
    rw [List.count_cons_self, if_pos rfl]
    push_cast
    rfl
  · rw [List.count_cons_of_ne hk, if_neg hk, add_zero]

/-- What releasing a list of nodes does: as many counts less, and on top of the stack those that
had just that many things to wait for. -/
theorem foldl_release (h : ∀ k, (l.count k : ℤ) ≤ s.inDegree k) :
    (l.foldl release s).order = s.order ∧
      (∀ k, (l.foldl release s).inDegree k = s.inDegree k - l.count k) ∧
      ∃ new, (l.foldl release s).stack = new ++ s.stack ∧ new.Nodup ∧
        ∀ k, k ∈ new ↔ k ∈ l ∧ s.inDegree k = l.count k := by
  induction l generalizing s with
  | nil => exact ⟨rfl, by simp, [], rfl, List.nodup_nil, by simp⟩
  | cons a l ih =>
      obtain ⟨horder, hdegree, new, hstack, hnodup, hnew⟩ := ih (s := release s a) (by
        intro k
        have hk := h k
        rw [count_cons_eq] at hk
        rw [inDegree_release]
        omega)
      rw [List.foldl_cons]
      refine ⟨horder, fun k => ?_, ?_⟩
      · rw [hdegree, inDegree_release, count_cons_eq]
        omega
      · by_cases hzero : s.inDegree a - 1 = 0
        · -- The node is free now, and not in the rest of the list.
          have hout : l.count a = 0 := by
            have ha := h a
            rw [count_cons_eq, if_pos rfl] at ha
            omega
          have hmem := List.count_eq_zero.mp hout
          refine ⟨new ++ [a], ?_, ?_, fun k => ?_⟩
          · rw [hstack, release, if_pos hzero, List.append_assoc]
            rfl
          · refine List.nodup_append.mpr ⟨hnodup, List.nodup_singleton a, ?_⟩
            intro x hx y hy heq
            rw [List.mem_singleton] at hy
            rw [heq, hy] at hx
            exact hmem ((hnew a).mp hx).1
          · rw [List.mem_append, hnew, inDegree_release, count_cons_eq, List.mem_singleton,
              List.mem_cons]
            by_cases hk : a = k
            · subst hk
              rw [if_pos rfl]
              simp only [hmem, hout, or_true, true_or, true_and, true_iff]
              push_cast
              omega
            · have hk' : k ≠ a := Ne.symm hk
              rw [if_neg hk]
              simp [hk']
        · -- It waits for more; if it comes again in the list, that is counted there.
          refine ⟨new, ?_, hnodup, fun k => ?_⟩
          · rw [hstack, release, if_neg hzero]
          · rw [hnew, inDegree_release, count_cons_eq, List.mem_cons]
            by_cases hk : a = k
            · subst hk
              rw [if_pos rfl]
              constructor
              · rintro ⟨hin, hdeg⟩
                exact ⟨.inr hin, by omega⟩
              · rintro ⟨-, hdeg⟩
                refine ⟨?_, by omega⟩
                by_contra hout
                rw [List.count_eq_zero.mpr hout] at hdeg
                push_cast at hdeg
                omega
            · have hk' : k ≠ a := Ne.symm hk
              rw [if_neg hk]
              simp [hk']

end Release

/-! ## The loop -/

/-- What holds all along: nothing comes twice, the counts are right, what is out or on the stack
is what waits for nothing that is not out, and what is out stands behind its dependencies. -/
structure Sound (nodes : List α) (deps : α → List α) (s : Progress α) : Prop where
  nodup : (s.order ++ s.stack).Nodup
  degree : ∀ k, s.inDegree k = (deps k).countP fun d => d ∉ s.order
  ready : ∀ k, k ∈ s.order ++ s.stack ↔ k ∈ nodes ∧ ∀ d ∈ deps k, d ∈ s.order
  closed : ∀ pre k post, s.order = pre ++ k :: post → ∀ d ∈ deps k, d ∈ pre

section Loop

variable {nodes : List α} {deps : α → List α} {adj : α → List α} {s : Progress α}

/-- One node more that is out. -/
theorem countP_notMem_append {order l : List α} {cur : α} (hcur : cur ∉ order) :
    l.countP (fun d => d ∉ order) =
      l.countP (fun d => d ∉ order ++ [cur]) + l.count cur := by
  induction l with
  | nil => rfl
  | cons d l ih =>
      rw [List.countP_cons, List.countP_cons, ih]
      by_cases hd : d = cur
      · subst hd
        simp only [hcur, List.mem_append, List.mem_singleton, or_true, not_true_eq_false,
          not_false_eq_true, decide_true, decide_false, if_true, List.count_cons_self]
        simp
        omega
      · rw [List.count_cons_of_ne hd]
        simp only [List.mem_append, List.mem_singleton, hd, or_false]
        omega

omit [DecidableEq α] in
/-- A node that is put out behind its dependencies. -/
theorem closed_append {order : List α} {cur : α}
    (h : ∀ pre k post, order = pre ++ k :: post → ∀ d ∈ deps k, d ∈ pre)
    (hcur : ∀ d ∈ deps cur, d ∈ order) :
    ∀ pre k post, order ++ [cur] = pre ++ k :: post → ∀ d ∈ deps k, d ∈ pre := by
  intro pre k post heq d hd
  rcases List.eq_nil_or_concat post with rfl | ⟨post', last, rfl⟩
  · obtain ⟨rfl, hlast⟩ := List.append_inj' heq rfl
    cases hlast
    exact hcur d hd
  · rw [List.concat_eq_append, ← List.cons_append, ← List.append_assoc] at heq
    obtain ⟨hinit, -⟩ := List.append_inj' heq rfl
    exact h pre k post' hinit d hd

/-- What one round does: the nodes that waited for nothing else come on top of the stack. -/
theorem Sound.released (hs : Sound nodes deps s) {cur : α} {stack : List α} (hcur : cur ∉ s.order)
    (hadj : ∀ k, (adj cur).count k = (deps k).count cur) :
    ∃ t new, (adj cur).foldl release ⟨s.inDegree, stack, s.order ++ [cur]⟩ = t ∧
      t.order = s.order ++ [cur] ∧ t.stack = new ++ stack ∧
      (∀ k, t.inDegree k = (deps k).countP fun d => d ∉ s.order ++ [cur]) ∧ new.Nodup ∧
      ∀ k, k ∈ new ↔ cur ∈ deps k ∧ ∀ d ∈ deps k, d ∈ s.order ++ [cur] := by
  have hsplit : ∀ k, s.inDegree k =
      ((deps k).countP fun d => d ∉ s.order ++ [cur]) + (deps k).count cur := by
    intro k
    rw [hs.degree, countP_notMem_append hcur]
    push_cast
    rfl
  obtain ⟨horder, hdegree, new, hstack, hnodup, hnew⟩ :=
    foldl_release (s := ⟨s.inDegree, stack, s.order ++ [cur]⟩) (l := adj cur) (by
      intro k
      show ((adj cur).count k : ℤ) ≤ s.inDegree k
      rw [hadj, hsplit]
      omega)
  dsimp only at horder hdegree hstack hnew
  refine ⟨_, new, rfl, horder, hstack, fun k => ?_, hnodup, fun k => ?_⟩
  · rw [hdegree, hsplit, hadj]
    omega
  · rw [hnew, hsplit, hadj, ← List.count_pos_iff, hadj, List.count_pos_iff]
    refine and_congr_right fun _ => ?_
    have hzero : ((deps k).countP fun d => d ∉ s.order ++ [cur]) = 0 ↔
        ∀ d ∈ deps k, d ∈ s.order ++ [cur] := by
      rw [List.countP_eq_zero]
      simp only [decide_eq_true_eq, not_not]
    rw [← hzero]
    omega

/-- **One round** of the loop. -/
theorem Sound.round (hs : Sound nodes deps s) {cur : α} {stack : List α}
    (hstack : s.stack = cur :: stack) (hadj : ∀ k, (adj cur).count k = (deps k).count cur)
    (hnodes : ∀ k d, d ∈ deps k → k ∈ nodes) :
    Sound nodes deps
      ((adj cur).foldl release ⟨s.inDegree, stack, s.order ++ [cur]⟩) := by
  have hnodup := hs.nodup
  rw [hstack] at hnodup
  have hcur : cur ∉ s.order := fun hin =>
    (List.nodup_append.mp hnodup).2.2 cur hin cur List.mem_cons_self rfl
  have hfree : ∀ d ∈ deps cur, d ∈ s.order := by
    refine ((hs.ready cur).mp ?_).2
    rw [hstack]
    exact List.mem_append_right _ List.mem_cons_self
  obtain ⟨t, new, hround, horder, hnewstack, hdegree, hnewnodup, hnewiff⟩ :=
    hs.released hcur hadj
  rw [hround]
  refine ⟨?_, fun k => ?_, fun k => ?_, ?_⟩
  · -- A node that has just come free waited for `cur`, so it was neither out nor on the stack.
    rw [horder, hnewstack]
    have hold : (s.order ++ [cur] ++ stack).Nodup := by
      rw [List.append_assoc]
      exact hnodup
    have hperm : (s.order ++ [cur] ++ (new ++ stack)).Perm
        (new ++ (s.order ++ [cur] ++ stack)) := by
      rw [← List.append_assoc, ← List.append_assoc]
      exact List.Perm.append_right stack List.perm_append_comm
    refine hperm.nodup_iff.mpr (List.nodup_append.mpr ⟨hnewnodup, hold, ?_⟩)
    rintro k hk other hother rfl
    have hwait := ((hnewiff k).mp hk).1
    have hin : k ∈ s.order ++ s.stack := by
      rw [hstack]
      rw [List.append_assoc] at hother
      exact hother
    exact hcur (((hs.ready k).mp hin).2 cur hwait)
  · rw [horder]
    exact hdegree k
  · rw [horder, hnewstack]
    constructor
    · intro hin
      have hcases : k ∈ new ∨ k ∈ s.order ++ s.stack := by
        rw [hstack]
        simp only [List.mem_append, List.mem_cons] at hin ⊢
        tauto
      rcases hcases with hk | hk
      · obtain ⟨hwait, hall⟩ := (hnewiff k).mp hk
        exact ⟨hnodes k cur hwait, hall⟩
      · obtain ⟨hnode, hall⟩ := (hs.ready k).mp hk
        exact ⟨hnode, fun d hd => List.mem_append_left _ (hall d hd)⟩
    · -- Either it waited for `cur`, or it was ready before.
      rintro ⟨hnode, hall⟩
      by_cases hwait : cur ∈ deps k
      · have hk := (hnewiff k).mpr ⟨hwait, hall⟩
        exact List.mem_append_right _ (List.mem_append_left _ hk)
      · have hk : k ∈ s.order ++ s.stack := by
          refine (hs.ready k).mpr ⟨hnode, fun d hd => ?_⟩
          rcases List.mem_append.mp (hall d hd) with hin | hin
          · exact hin
          · rw [List.mem_singleton] at hin
            exact absurd (hin ▸ hd) hwait
        rw [hstack] at hk
        simp only [List.mem_append, List.mem_cons] at hk ⊢
        tauto
  · rw [horder]
    exact closed_append hs.closed hfree

theorem order_foldl_release (l : List α) (s : Progress α) :
    (l.foldl release s).order = s.order := by
  induction l generalizing s with
  | nil => rfl
  | cons a l ih =>
      rw [List.foldl_cons, ih]
      rfl

/-- **The loop ends** with an empty stack, if it has as much fuel as there are nodes left. -/
theorem Sound.drain (hadj : ∀ d k, (adj d).count k = (deps k).count d)
    (hnodes : ∀ k d, d ∈ deps k → k ∈ nodes) {fuel : ℕ} (hs : Sound nodes deps s)
    (hfuel : nodes.length ≤ s.order.length + fuel) :
    Sound nodes deps (drain adj fuel s) ∧ (drain adj fuel s).stack = [] := by
  induction fuel generalizing s with
  | zero =>
      have hlen : (s.order ++ s.stack).length ≤ nodes.length := by
        refine (hs.nodup.subperm fun k hk => ?_).length_le
        exact ((hs.ready k).mp hk).1
      rw [List.length_append] at hlen
      exact ⟨hs, List.length_eq_zero_iff.mp (by rw [TopologicalSort.drain]; omega)⟩
  | succ fuel ih =>
      rw [TopologicalSort.drain]
      cases hstack : s.stack with
      | nil => exact ⟨hs, hstack⟩
      | cons cur stack =>
          refine ih (hs.round hstack (hadj cur) hnodes) ?_
          rw [order_foldl_release, List.length_append, List.length_singleton]
          omega

end Loop

/-! ## The sort -/

/-- All chains of dependencies from the node end, and in nodes. -/
inductive Grounded (visit : List (α × List α)) : α → Prop
  | intro {k : α} {deps : List α} (hk : (k, deps) ∈ visit)
      (hdeps : ∀ d ∈ deps, Grounded visit d) : Grounded visit k

section Sorting

variable {visit : List (α × List α)} {heads : List α}

theorem sound_start (hnodup : heads.Nodup) (hheads : ∀ k, k ∈ heads ↔ k ∈ visit.map Prod.fst) :
    Sound (visit.map Prod.fst) (depsOf visit) (start (graphOf visit) heads) := by
  obtain ⟨-, hdegree⟩ := graphOf_spec visit
  refine ⟨?_, fun k => ?_, fun k => ?_, fun pre k post heq => ?_⟩
  · exact List.nodup_reverse.mpr (hnodup.filter _)
  · have hall : (depsOf visit k).countP (fun d => d ∉ ([] : List α)) = (depsOf visit k).length := by
      rw [List.countP_eq_length]
      intro d _
      simp
    show (graphOf visit).inDegree k = ((depsOf visit k).countP fun d => d ∉ ([] : List α) : ℕ)
    rw [hdegree, hall]
  · rw [start, List.nil_append, List.mem_reverse, List.mem_filter, hheads, hdegree,
      decide_eq_true_eq, Int.natCast_eq_zero, List.length_eq_zero_iff]
    refine and_congr_right fun _ => ⟨fun hnil d hd => ?_, fun hall => ?_⟩
    · rw [hnil] at hd
      exact hd
    · exact List.eq_nil_iff_forall_not_mem.mpr fun d hd => List.not_mem_nil (hall d hd)
  · exact absurd heq.symm (List.append_ne_nil_of_right_ne_nil pre (List.cons_ne_nil k post))

/-- **The sort ends**, and nodes may come several times in what it goes over. -/
theorem sound_drain_start (hnodup : heads.Nodup)
    (hheads : ∀ k, k ∈ heads ↔ k ∈ visit.map Prod.fst) :
    Sound (visit.map Prod.fst) (depsOf visit)
        (drain (graphOf visit).adj visit.length (start (graphOf visit) heads)) ∧
      (drain (graphOf visit).adj visit.length (start (graphOf visit) heads)).stack = [] := by
  obtain ⟨hadj, -⟩ := graphOf_spec visit
  have hfuel : (visit.map Prod.fst).length ≤
      (start (graphOf visit) heads).order.length + visit.length := by
    rw [List.length_map]
    exact Nat.le_add_left _ _
  exact (sound_start hnodup hheads).drain hadj (fun k d hd => mem_of_mem_depsOf hd) hfuel

/-- What is put out is what depends on nothing else. -/
theorem mem_topoSort_iff_deps (hnodup : heads.Nodup)
    (hheads : ∀ k, k ∈ heads ↔ k ∈ visit.map Prod.fst) (k : α) :
    k ∈ topoSort visit heads ↔
      k ∈ visit.map Prod.fst ∧ ∀ d ∈ depsOf visit k, d ∈ topoSort visit heads := by
  obtain ⟨hs, hstack⟩ := sound_drain_start hnodup hheads
  have hready := hs.ready k
  rw [hstack, List.append_nil] at hready
  exact hready

/-- **The sort** puts out every grounded node, once, behind its dependencies. -/
theorem topoSort_spec (hnodup : (visit.map Prod.fst).Nodup)
    (hheads : heads.Perm (visit.map Prod.fst)) :
    (topoSort visit heads).Nodup ∧
      (∀ pre k post deps, topoSort visit heads = pre ++ k :: post → (k, deps) ∈ visit →
        ∀ d ∈ deps, d ∈ pre) ∧
      ∀ k, k ∈ topoSort visit heads ↔ Grounded visit k := by
  have hheadsNodup : heads.Nodup := hheads.nodup_iff.mpr hnodup
  have hheadsMem : ∀ k, k ∈ heads ↔ k ∈ visit.map Prod.fst := fun k => hheads.mem_iff
  obtain ⟨hs, -⟩ := sound_drain_start hheadsNodup hheadsMem
  have hready := mem_topoSort_iff_deps hheadsNodup hheadsMem
  have hclosed : ∀ pre k post deps, topoSort visit heads = pre ++ k :: post →
      (k, deps) ∈ visit → ∀ d ∈ deps, d ∈ pre := by
    intro pre k post deps heq hk
    have hpre := hs.closed pre k post heq
    rwa [depsOf_eq hnodup hk] at hpre
  refine ⟨(List.nodup_append.mp hs.nodup).1, hclosed, fun k => ⟨fun hk => ?_, fun hk => ?_⟩⟩
  · -- From the front: what stands before a node is grounded.
    have hpre : ∀ n pre post, pre.length = n → topoSort visit heads = pre ++ post →
        ∀ k ∈ pre, Grounded visit k := by
      intro n
      induction n using Nat.strong_induction_on with
      | _ n ih =>
          intro pre post hn heq k hk
          obtain ⟨front, back, rfl⟩ := List.append_of_mem hk
          have hmem : k ∈ topoSort visit heads := by
            rw [heq]
            exact List.mem_append_left post hk
          obtain ⟨⟨node, deps⟩, hnode, rfl⟩ := List.mem_map.mp ((hready k).mp hmem).1
          have hfront : topoSort visit heads = front ++ node :: (back ++ post) := by
            rw [heq, List.append_assoc, List.cons_append]
          refine .intro hnode fun d hd => ?_
          refine ih front.length ?_ front _ rfl hfront d
            (hclosed front node _ deps hfront hnode d hd)
          rw [← hn, List.length_append, List.length_cons]
          omega
    exact hpre _ (topoSort visit heads) [] rfl (List.append_nil _).symm k hk
  · induction hk with
    | intro hk _ ih =>
        refine (hready _).mpr ⟨List.mem_map.mpr ⟨_, hk, rfl⟩, ?_⟩
        rw [depsOf_eq hnodup hk]
        exact ih

end Sorting

/-! ## Chains of dependencies -/

/-- The node depends on the other one. -/
def DependsOn (visit : List (α × List α)) (k d : α) : Prop := d ∈ depsOf visit k

/-- Every chain of dependencies from the node stays among the nodes and off the cycles. -/
def Resolves (visit : List (α × List α)) (k : α) : Prop :=
  ∀ d, Relation.ReflTransGen (DependsOn visit) k d →
    d ∈ visit.map Prod.fst ∧ ¬ Relation.TransGen (DependsOn visit) d d

section Chains

variable {visit : List (α × List α)} {heads : List α} {k : α}

theorem Resolves.dep (h : Resolves visit k) {d : α} (hd : DependsOn visit k d) :
    Resolves visit d := fun b hb => h b (.head hd hb)

/-- Among finitely many nodes, chains without cycles end. -/
theorem Resolves.induction {P : α → Prop} (h : Resolves visit k)
    (hstep : ∀ k, Resolves visit k → (∀ d, DependsOn visit k d → P d) → P k) : P k := by
  let S := {d // Relation.ReflTransGen (DependsOn visit) k d}
  have hfinite : Finite S := by
    refine Set.Finite.subset (List.finite_toSet (visit.map Prod.fst)) fun d hd => ?_
    exact (h d hd).1
  let r : S → S → Prop := fun x y => Relation.TransGen (DependsOn visit) y.1 x.1
  have htrans : IsTrans S r := ⟨fun x y z hxy hyz => Relation.TransGen.trans hyz hxy⟩
  have hirrefl : Std.Irrefl r := ⟨fun x => (h x.1 x.2).2⟩
  have hwf : WellFounded r := Finite.wellFounded_of_trans_of_irrefl r
  have hall : ∀ x : S, P x.1 := by
    intro x
    induction x using hwf.induction with
    | _ x ih =>
        refine hstep x.1 (fun b hb => h b (x.2.trans hb)) fun d hd => ?_
        exact ih ⟨d, x.2.tail hd⟩ (.single hd)
  exact hall ⟨k, .refl⟩

/-- What stands in front of a node is what it depends on. -/
theorem idxOf_lt_of_dependsOn {order : List α} (hnodup : order.Nodup)
    (hclosed : ∀ pre k post, order = pre ++ k :: post → ∀ d ∈ depsOf visit k, d ∈ pre) {d : α}
    (hk : k ∈ order) (hd : DependsOn visit k d) : d ∈ order ∧ order.idxOf d < order.idxOf k := by
  obtain ⟨pre, post, rfl⟩ := List.append_of_mem hk
  have hpre : d ∈ pre := hclosed pre k post rfl d hd
  have hknot : k ∉ pre := fun hin =>
    (List.nodup_append.mp hnodup).2.2 k hin k List.mem_cons_self rfl
  refine ⟨List.mem_append_left _ hpre, ?_⟩
  rw [List.idxOf_append_of_mem hpre, List.idxOf_append_of_notMem hknot, List.idxOf_cons_self]
  exact Nat.lt_of_lt_of_le (List.idxOf_lt_length_of_mem hpre) (Nat.le_add_right _ _)

/-- **What the sort puts out**: the nodes all of whose chains of dependencies end. -/
theorem mem_topoSort_iff_resolves (hnodup : heads.Nodup)
    (hheads : ∀ k, k ∈ heads ↔ k ∈ visit.map Prod.fst) :
    k ∈ topoSort visit heads ↔ Resolves visit k := by
  obtain ⟨hs, hstack⟩ := sound_drain_start hnodup hheads
  have hsort : (topoSort visit heads).Nodup := (List.nodup_append.mp hs.nodup).1
  constructor
  · intro hk
    -- Along a chain the positions fall.
    have hdown : ∀ a b, a ∈ topoSort visit heads → Relation.TransGen (DependsOn visit) a b →
        b ∈ topoSort visit heads ∧
          (topoSort visit heads).idxOf b < (topoSort visit heads).idxOf a := by
      intro a b ha hab
      induction hab with
      | single hd => exact idxOf_lt_of_dependsOn hsort hs.closed ha hd
      | tail _ hd ih =>
          obtain ⟨hmem, hlt⟩ := idxOf_lt_of_dependsOn hsort hs.closed ih.1 hd
          exact ⟨hmem, hlt.trans ih.2⟩
    intro d hd
    have hmem : d ∈ topoSort visit heads := by
      rcases Relation.reflTransGen_iff_eq_or_transGen.mp hd with rfl | hd
      · exact hk
      · exact (hdown k d hk hd).1
    refine ⟨((mem_topoSort_iff_deps hnodup hheads d).mp hmem).1, fun hcycle => ?_⟩
    exact lt_irrefl _ (hdown d d hmem hcycle).2
  · intro hk
    refine hk.induction fun k hk ih => (mem_topoSort_iff_deps hnodup hheads k).mpr ?_
    exact ⟨(hk k .refl).1, ih⟩

end Chains

end TopologicalSort
