import Mathlib.Tactic

/-!
# Preorder walks

A recursive procedure prints a list of nodes: each node with its depth, and right
after it, one level deeper, the nodes below it.  `kids` gives the nodes that are
visited below a node, and need not be a forest: a node can be visited twice, and
the procedure need not end.

`Walk` relates the nodes to what an ending run prints.  In a forest, where a kid
has one parent, the roots are no kids and nothing repeats among siblings, every
run ends and prints every node that is reached exactly once.

**Results.**
* `Walk.reaches`, `Walk.exists_depth`: what is printed is what is reached.
* `Walk.subtree`: a node is followed by the walk of its kids.
* `Walk.level`: the nodes of the first level stand in their given order.
* `Walk.not_below_itself`: a node below itself is a run without end.
* `Walk.skipBelow_eq`: one pass with a depth leaves out what is below some nodes.
* `IsForest.nodup_walk`, `IsForest.exists_walk`: the walk of a forest.
-/

namespace Otelop
namespace Lib

universe u v

section FlatMapOption

variable {α : Type u} {β : Type v}

/-- The concatenated results for a list, nothing when one of them is missing. -/
def flatMapOption (f : α → Option (List β)) : List α → Option (List β)
  | [] => some []
  | a :: l => (f a).bind fun part => (flatMapOption f l).map (part ++ ·)

theorem flatMapOption_cons_eq_some_iff
    {f : α → Option (List β)} {a : α} {l : List α} {out : List β} :
    flatMapOption f (a :: l) = some out ↔
      ∃ part rest, f a = some part ∧ flatMapOption f l = some rest ∧ part ++ rest = out := by
  simp only [flatMapOption, Option.bind_eq_some_iff, Option.map_eq_some_iff]
  constructor
  · rintro ⟨part, hpart, rest, hrest, hout⟩
    exact ⟨part, rest, hpart, hrest, hout⟩
  · rintro ⟨part, rest, hpart, hrest, hout⟩
    exact ⟨part, hpart, rest, hrest, hout⟩

/-- A missing result stays missing only if it is missing for some element. -/
theorem flatMapOption_mono
    {f g : α → Option (List β)}
    (hfg : ∀ a part, f a = some part → g a = some part)
    {l : List α} {out : List β}
    (h : flatMapOption f l = some out) :
    flatMapOption g l = some out := by
  induction l generalizing out with
  | nil => exact h
  | cons a l ih =>
      obtain ⟨part, rest, hpart, hrest, hout⟩ := flatMapOption_cons_eq_some_iff.mp h
      exact flatMapOption_cons_eq_some_iff.mpr ⟨part, rest, hfg a part hpart, ih hrest, hout⟩

end FlatMapOption

section Preorder

variable {α : Type u} (kids : α → List α)

/-- What a run over the nodes prints at a depth. -/
inductive Walk : Nat → List α → List (α × Nat) → Prop
  | nil
      {depth : Nat} :
      Walk depth [] []
  | cons
      {depth : Nat} {n : α} {nodes : List α} {below rest : List (α × Nat)}
      (hbelow : Walk (depth + 1) (kids n) below)
      (hrest : Walk depth nodes rest) :
      Walk depth (n :: nodes) ((n, depth) :: (below ++ rest))

/-- `c` is visited right below the known node `p`. -/
def Kid (all : List α) (p c : α) : Prop := p ∈ all ∧ c ∈ kids p

variable {kids} {all nodes : List α} {depth : Nat} {out : List (α × Nat)}

/-- Every printed node is reached from one of the nodes. -/
theorem Walk.reaches
    (h : Walk kids depth nodes out)
    (hall : ∀ n ∈ nodes, n ∈ all) (hkids : ∀ p ∈ all, ∀ c ∈ kids p, c ∈ all) :
    ∀ e ∈ out, ∃ n ∈ nodes, Relation.ReflTransGen (Kid kids all) n e.1 := by
  induction h with
  | nil =>
      intro e he
      cases he
  | @cons depth n nodes below rest hbelow hrest ihbelow ihrest =>
      intro e he
      have hn : n ∈ all := hall n List.mem_cons_self
      rcases List.mem_cons.mp he with rfl | he
      · exact ⟨n, List.mem_cons_self, .refl⟩
      · rcases List.mem_append.mp he with he | he
        · obtain ⟨c, hc, hreach⟩ := ihbelow (hkids n hn) e he
          exact ⟨n, List.mem_cons_self, .head ⟨hn, hc⟩ hreach⟩
        · obtain ⟨m, hm, hreach⟩ := ihrest (fun m hm => hall m (List.mem_cons_of_mem n hm)) e he
          exact ⟨m, List.mem_cons_of_mem n hm, hreach⟩

/-- Every node that is reached is printed. -/
theorem Walk.exists_depth
    (h : Walk kids depth nodes out) {n x : α} (hn : n ∈ nodes)
    (hreach : Relation.ReflTransGen (Kid kids all) n x) :
    ∃ d, (x, d) ∈ out := by
  induction h generalizing n with
  | nil => cases hn
  | @cons depth m nodes below rest hbelow hrest ihbelow ihrest =>
      rcases List.mem_cons.mp hn with rfl | hn
      · rcases hreach.cases_head with rfl | ⟨c, hc, hreach⟩
        · exact ⟨depth, List.mem_cons_self⟩
        · obtain ⟨d, hd⟩ := ihbelow hc.2 hreach
          exact ⟨d, List.mem_cons_of_mem _ (List.mem_append_left rest hd)⟩
      · obtain ⟨d, hd⟩ := ihrest hn hreach
        exact ⟨d, List.mem_cons_of_mem _ (List.mem_append_right below hd)⟩

/-- A node is followed by the walk of its kids. -/
theorem Walk.subtree
    (h : Walk kids depth nodes out) {x : α} {d : Nat} (hx : (x, d) ∈ out) :
    ∃ before below after, out = before ++ (x, d) :: (below ++ after) ∧
      Walk kids (d + 1) (kids x) below := by
  induction h with
  | nil => cases hx
  | @cons depth n nodes below rest hbelow hrest ihbelow ihrest =>
      rcases List.mem_cons.mp hx with heq | hx
      · cases heq
        exact ⟨[], below, rest, rfl, hbelow⟩
      · rcases List.mem_append.mp hx with hx | hx
        · obtain ⟨before, sub, after, heq, hsub⟩ := ihbelow hx
          refine ⟨(n, depth) :: before, sub, after ++ rest, ?_, hsub⟩
          simp [heq]
        · obtain ⟨before, sub, after, heq, hsub⟩ := ihrest hx
          refine ⟨(n, depth) :: (below ++ before), sub, after, ?_, hsub⟩
          simp [heq]

theorem Walk.depth_le
    (h : Walk kids depth nodes out) :
    ∀ e ∈ out, depth ≤ e.2 := by
  induction h with
  | nil =>
      intro e he
      cases he
  | @cons depth n nodes below rest hbelow hrest ihbelow ihrest =>
      intro e he
      rcases List.mem_cons.mp he with rfl | he
      · exact le_rfl
      · rcases List.mem_append.mp he with he | he
        · have hdeep := ihbelow e he
          omega
        · exact ihrest e he

/-- The nodes of the first level, in their order. -/
theorem Walk.level
    (h : Walk kids depth nodes out) :
    out.filter (fun e => e.2 = depth) = nodes.map fun n => (n, depth) := by
  induction h with
  | nil => rfl
  | @cons depth n nodes below rest hbelow hrest ihbelow ihrest =>
      have hdeep : below.filter (fun e => e.2 = depth) = [] := by
        refine List.filter_eq_nil_iff.mpr fun e he => ?_
        have hle := hbelow.depth_le e he
        simp only [decide_eq_true_eq]
        omega
      rw [List.filter_cons_of_pos (by simp), List.filter_append, hdeep, List.nil_append, ihrest,
        List.map_cons]

/-- No ending run prints a node that is visited below itself. -/
theorem Walk.not_below_itself
    (h : Walk kids depth nodes out) {x : α} (hx : x ∈ kids x) (d : Nat) :
    (x, d) ∉ out := by
  induction hlen : out.length using Nat.strong_induction_on generalizing depth nodes out d with
  | _ len ih =>
      intro hmem
      obtain ⟨before, below, after, rfl, hbelow⟩ := h.subtree hmem
      have hagain : (x, d + 1) ∈ below.filter fun e => e.2 = d + 1 := by
        rw [hbelow.level]
        exact List.mem_map_of_mem hx
      refine ih below.length ?_ hbelow (d + 1) rfl (List.mem_of_mem_filter hagain)
      rw [← hlen]
      simp only [List.length_append, List.length_cons]
      omega

/-! ### A pass that leaves out what is below some nodes -/

/-- `skip` is the depth of the last node that was left with what is below it left out. -/
def skipBelow (collapsed : α → Bool) : Option Nat → List (α × Nat) → List (α × Nat)
  | _, [] => []
  | skip, e :: rest =>
      if skip.any (· < e.2) then skipBelow collapsed skip rest
      else e :: skipBelow collapsed (if collapsed e.1 then some e.2 else none) rest

section SkipBelow

variable {collapsed hidden : α → Bool}

theorem skipBelow_deeper
    {d : Nat} {below : List (α × Nat)} (h : ∀ e ∈ below, d < e.2) (tail : List (α × Nat)) :
    skipBelow collapsed (some d) (below ++ tail) = skipBelow collapsed (some d) tail := by
  induction below with
  | nil => rfl
  | cons e below ih =>
      obtain ⟨he, hbelow⟩ := List.forall_mem_cons.mp h
      rw [List.cons_append, skipBelow, if_pos (by simpa using he), ih hbelow]

/-- Below hidden nodes everything is hidden. -/
theorem Walk.hidden_of_nodes
    (h : Walk kids depth nodes out) (hall : ∀ n ∈ nodes, n ∈ all)
    (hmem : ∀ p ∈ all, ∀ c ∈ kids p, c ∈ all)
    (hkids : ∀ p ∈ all, ∀ c ∈ kids p, hidden c = (hidden p || collapsed p))
    (hnodes : ∀ n ∈ nodes, hidden n = true) :
    ∀ e ∈ out, hidden e.1 = true := by
  induction h with
  | nil =>
      intro e he
      cases he
  | @cons depth n nodes below rest hbelow hrest ihbelow ihrest =>
      obtain ⟨hn, hnodes⟩ := List.forall_mem_cons.mp hnodes
      obtain ⟨hin, hall⟩ := List.forall_mem_cons.mp hall
      have hbelow : ∀ c ∈ kids n, hidden c = true := by
        intro c hc
        rw [hkids n hin c hc, hn, Bool.true_or]
      intro e he
      rcases List.mem_cons.mp he with rfl | he
      · exact hn
      · rcases List.mem_append.mp he with he | he
        · exact ihbelow (hmem n hin) hbelow e he
        · exact ihrest hall hnodes e he

/-- The pass over a walk whose nodes are shown.  Whatever it skips from then on is below the
first level. -/
theorem Walk.skipBelow_append
    (h : Walk kids depth nodes out) (hall : ∀ n ∈ nodes, n ∈ all)
    (hmem : ∀ p ∈ all, ∀ c ∈ kids p, c ∈ all)
    (hkids : ∀ p ∈ all, ∀ c ∈ kids p, hidden c = (hidden p || collapsed p))
    (hnodes : ∀ n ∈ nodes, hidden n = false) {skip : Option Nat} (hskip : ∀ d ∈ skip, depth ≤ d)
    (tail : List (α × Nat)) :
    ∃ skip', (∀ d ∈ skip', depth ≤ d) ∧ skipBelow collapsed skip (out ++ tail) =
      out.filter (fun e => !hidden e.1) ++ skipBelow collapsed skip' tail := by
  induction h generalizing skip tail with
  | nil => exact ⟨skip, hskip, rfl⟩
  | @cons depth n nodes below rest hbelow hrest ihbelow ihrest =>
      obtain ⟨hn, hnodes⟩ := List.forall_mem_cons.mp hnodes
      obtain ⟨hin, hall⟩ := List.forall_mem_cons.mp hall
      have hshown : ¬ skip.any (· < depth) = true := by
        cases skip with
        | none => simp
        | some d =>
            have hd := hskip d rfl
            simpa using hd
      have hkeep : ((n, depth) :: (below ++ rest)).filter (fun e => !hidden e.1) =
          (n, depth) :: (below.filter (fun e => !hidden e.1) ++
            rest.filter fun e => !hidden e.1) := by
        rw [List.filter_cons_of_pos (by rw [hn]; rfl), List.filter_append]
      rw [hkeep, List.cons_append, skipBelow, if_neg hshown, List.append_assoc]
      by_cases hcollapsed : collapsed n = true
      · -- All that is below is deeper, and hidden.
        have hdeeper : ∀ e ∈ below, depth < e.2 := fun e he => hbelow.depth_le e he
        have hgone : below.filter (fun e => !hidden e.1) = [] := by
          refine List.filter_eq_nil_iff.mpr fun e he => ?_
          have hhidden : ∀ c ∈ kids n, hidden c = true := by
            intro c hc
            rw [hkids n hin c hc, hcollapsed, Bool.or_true]
          simp [hbelow.hidden_of_nodes (hmem n hin) hmem hkids hhidden e he]
        have hlevel : ∀ d ∈ some depth, depth ≤ d := by
          intro d hd
          cases hd
          exact le_rfl
        obtain ⟨skip', hskip', hpass⟩ := ihrest hall hnodes hlevel tail
        exact ⟨skip', hskip', by
          rw [if_pos hcollapsed, skipBelow_deeper hdeeper, hpass, hgone, List.nil_append,
            List.cons_append]⟩
      · have hclear : ∀ c ∈ kids n, hidden c = false := by
          intro c hc
          rw [hkids n hin c hc, hn, Bool.false_or, Bool.eq_false_iff]
          exact hcollapsed
        have hnone : ∀ d ∈ (none : Option Nat), depth + 1 ≤ d := fun d hd => by cases hd
        obtain ⟨inner, hinner, hpassBelow⟩ :=
          ihbelow (hmem n hin) hclear hnone (rest ++ tail)
        obtain ⟨skip', hskip', hpass⟩ :=
          ihrest hall hnodes (fun d hd => (Nat.le_succ depth).trans (hinner d hd)) tail
        exact ⟨skip', hskip', by
          rw [if_neg hcollapsed, hpassBelow, hpass, List.cons_append, List.append_assoc]⟩

/-- The pass leaves just what is not hidden. -/
theorem Walk.skipBelow_eq
    (h : Walk kids depth nodes out) (hall : ∀ n ∈ nodes, n ∈ all)
    (hmem : ∀ p ∈ all, ∀ c ∈ kids p, c ∈ all)
    (hkids : ∀ p ∈ all, ∀ c ∈ kids p, hidden c = (hidden p || collapsed p))
    (hnodes : ∀ n ∈ nodes, hidden n = false) :
    skipBelow collapsed none out = out.filter fun e => !hidden e.1 := by
  have hnone : ∀ d ∈ (none : Option Nat), depth ≤ d := fun d hd => by cases hd
  obtain ⟨skip', -, hpass⟩ := h.skipBelow_append hall hmem hkids hnodes hnone []
  rw [List.append_nil, skipBelow, List.append_nil] at hpass
  exact hpass

end SkipBelow

/-- The kids of known nodes make a forest over the roots. -/
structure IsForest (kids : α → List α) (all roots : List α) : Prop where
  roots_mem : ∀ r ∈ roots, r ∈ all
  kids_mem : ∀ p ∈ all, ∀ c ∈ kids p, c ∈ all
  oneParent : ∀ p q c, Kid kids all p c → Kid kids all q c → p = q
  root_not_kid : ∀ r ∈ roots, ∀ p, ¬ Kid kids all p r
  nodup_roots : roots.Nodup
  nodup_kids : ∀ p ∈ all, (kids p).Nodup

namespace IsForest

variable {roots : List α}

/-- Reached from a root. -/
def Reached (kids : α → List α) (all roots : List α) (x : α) : Prop :=
  ∃ r ∈ roots, Relation.ReflTransGen (Kid kids all) r x

theorem reached_mem
    (hf : IsForest kids all roots) {x : α} (hx : Reached kids all roots x) :
    x ∈ all := by
  obtain ⟨r, hr, hreach⟩ := hx
  rcases hreach.cases_tail with heq | ⟨p, -, hkid⟩
  · exact heq ▸ hf.roots_mem r hr
  · exact hf.kids_mem p hkid.1 x hkid.2

theorem reached_kid
    {p c : α} (hp : Reached kids all roots p) (hc : Kid kids all p c) :
    Reached kids all roots c := by
  obtain ⟨r, hr, hreach⟩ := hp
  exact ⟨r, hr, hreach.tail hc⟩

/-- Going up from a node that is reached ends in a root, so there is no way round. -/
theorem acyclic
    (hf : IsForest kids all roots) {x : α} (hx : Reached kids all roots x) :
    ¬ Relation.TransGen (Kid kids all) x x := by
  obtain ⟨r, hr, hreach⟩ := hx
  induction hreach with
  | refl =>
      intro hloop
      obtain ⟨p, -, hkid⟩ := Relation.TransGen.tail'_iff.mp hloop
      exact hf.root_not_kid r hr p hkid
  | @tail p c hreach hkid ih =>
      intro hloop
      obtain ⟨q, hway, hlast⟩ := Relation.TransGen.tail'_iff.mp hloop
      have hqp : q = p := hf.oneParent q p c hlast hkid
      subst hqp
      exact ih (Relation.TransGen.head' hkid hway)

/-- Two nodes above one node are above one another. -/
theorem comparable
    (hf : IsForest kids all roots) {x y z : α}
    (hx : Relation.ReflTransGen (Kid kids all) x z)
    (hy : Relation.ReflTransGen (Kid kids all) y z) :
    Relation.ReflTransGen (Kid kids all) x y ∨ Relation.ReflTransGen (Kid kids all) y x := by
  induction hx with
  | refl => exact Or.inr hy
  | @tail p c hxp hkid ih =>
      rcases hy.cases_tail with rfl | ⟨q, hyq, hlast⟩
      · exact Or.inl (hxp.tail hkid)
      · have hqp : q = p := hf.oneParent q p c hlast hkid
        exact ih (hqp ▸ hyq)

/-- Nodes that are reached, each once and none above another. -/
structure Siblings (kids : α → List α) (all roots nodes : List α) : Prop where
  reached : ∀ n ∈ nodes, Reached kids all roots n
  nodup : nodes.Nodup
  apart : ∀ n ∈ nodes, ∀ m ∈ nodes, ¬ Relation.TransGen (Kid kids all) n m

theorem siblings_roots
    (hf : IsForest kids all roots) :
    Siblings kids all roots roots := by
  refine ⟨fun n hn => ⟨n, hn, .refl⟩, hf.nodup_roots, fun n _ m hm hway => ?_⟩
  obtain ⟨p, -, hkid⟩ := Relation.TransGen.tail'_iff.mp hway
  exact hf.root_not_kid m hm p hkid

theorem siblings_kids
    (hf : IsForest kids all roots) {p : α} (hp : Reached kids all roots p) :
    Siblings kids all roots (kids p) := by
  have hmem : p ∈ all := hf.reached_mem hp
  refine ⟨fun n hn => reached_kid hp ⟨hmem, hn⟩, hf.nodup_kids p hmem, fun n hn m hm hway => ?_⟩
  obtain ⟨q, hnq, hlast⟩ := Relation.TransGen.tail'_iff.mp hway
  have hqp : q = p := hf.oneParent q p m hlast ⟨hmem, hm⟩
  subst hqp
  exact hf.acyclic hp (Relation.TransGen.head' ⟨hmem, hn⟩ hnq)

theorem Siblings.tail
    {n : α} (h : Siblings kids all roots (n :: nodes)) :
    Siblings kids all roots nodes :=
  ⟨fun m hm => h.reached m (List.mem_cons_of_mem n hm), h.nodup.of_cons,
    fun m hm k hk => h.apart m (List.mem_cons_of_mem n hm) k (List.mem_cons_of_mem n hk)⟩

/-- Nothing lies below two siblings. -/
theorem Siblings.disjoint
    (hf : IsForest kids all roots) {n m x : α} (h : Siblings kids all roots (n :: nodes))
    (hm : m ∈ nodes)
    (hn : Relation.ReflTransGen (Kid kids all) n x)
    (hmx : Relation.ReflTransGen (Kid kids all) m x) :
    False := by
  have hne : n ≠ m := fun heq => (List.nodup_cons.mp h.nodup).1 (heq ▸ hm)
  have hmem : m ∈ n :: nodes := List.mem_cons_of_mem n hm
  rcases hf.comparable hn hmx with hway | hway
  · rcases Relation.reflTransGen_iff_eq_or_transGen.mp hway with heq | hway
    · exact hne heq.symm
    · exact h.apart n List.mem_cons_self m hmem hway
  · rcases Relation.reflTransGen_iff_eq_or_transGen.mp hway with heq | hway
    · exact hne heq
    · exact h.apart m hmem n List.mem_cons_self hway

/-- A walk over siblings prints every node once. -/
theorem nodup_walk
    (hf : IsForest kids all roots) (h : Walk kids depth nodes out)
    (hnodes : Siblings kids all roots nodes) :
    (out.map Prod.fst).Nodup := by
  induction h with
  | nil => exact List.nodup_nil
  | @cons depth n nodes below rest hbelow hrest ihbelow ihrest =>
      have hn : Reached kids all roots n := hnodes.reached n List.mem_cons_self
      have hsub : ∀ x ∈ below.map Prod.fst, Relation.TransGen (Kid kids all) n x := by
        intro x hx
        obtain ⟨e, he, rfl⟩ := List.mem_map.mp hx
        have hmem : n ∈ all := hf.reached_mem hn
        obtain ⟨c, hc, hreach⟩ := hbelow.reaches (hf.kids_mem n hmem) hf.kids_mem e he
        exact Relation.TransGen.head' ⟨hmem, hc⟩ hreach
      have hother : ∀ x ∈ rest.map Prod.fst,
          ∃ m ∈ nodes, Relation.ReflTransGen (Kid kids all) m x := by
        intro x hx
        obtain ⟨e, he, rfl⟩ := List.mem_map.mp hx
        exact hrest.reaches (fun m hm => hf.reached_mem (hnodes.tail.reached m hm)) hf.kids_mem e he
      rw [List.map_cons, List.map_append, List.nodup_cons, List.mem_append]
      refine ⟨fun hmem => ?_, List.nodup_append.mpr
        ⟨ihbelow (hf.siblings_kids hn), ihrest hnodes.tail, fun x hx y hy heq => ?_⟩⟩
      · rcases hmem with hmem | hmem
        · exact hf.acyclic hn (hsub n hmem)
        · obtain ⟨m, hm, hreach⟩ := hother n hmem
          exact hnodes.disjoint hf hm .refl hreach
      · subst heq
        obtain ⟨m, hm, hreach⟩ := hother x hy
        exact hnodes.disjoint hf hm (hsub x hx).to_reflTransGen hreach

/-- The walk of a forest ends: the nodes above a node are different, so `path`, from a node
up to its root, is never longer than the list of all nodes. -/
theorem exists_walk_below
    [DecidableEq α] (hf : IsForest kids all roots) (free : Nat) {path nodes : List α}
    (hlen : all.length < free + path.length) (hpath : path.Nodup)
    (hreached : ∀ x ∈ path, Reached kids all roots x)
    (habove : ∀ x ∈ path, ∀ n ∈ nodes, Relation.TransGen (Kid kids all) x n)
    (hnodes : ∀ n ∈ nodes, Reached kids all roots n) (depth : Nat) :
    ∃ out, Walk kids depth nodes out := by
  induction free generalizing path nodes depth with
  | zero =>
      have hsub : path ⊆ all := fun x hx => hf.reached_mem (hreached x hx)
      have hle : path.length ≤ all.length := (List.subperm_of_subset hpath hsub).length_le
      omega
  | succ free ih =>
      induction nodes with
      | nil => exact ⟨[], .nil⟩
      | cons n nodes ihnodes =>
          have hn : Reached kids all roots n := hnodes n List.mem_cons_self
          have hmem : n ∈ all := hf.reached_mem hn
          have hfresh : n ∉ path := fun hin =>
            hf.acyclic hn (habove n hin n List.mem_cons_self)
          obtain ⟨below, hbelow⟩ : ∃ below, Walk kids (depth + 1) (kids n) below := by
            have hlen' : all.length < free + (n :: path).length := by
              rw [List.length_cons]
              omega
            refine ih hlen' (List.nodup_cons.mpr ⟨hfresh, hpath⟩) ?_ ?_
              (fun c hc => reached_kid hn ⟨hmem, hc⟩) (depth + 1)
            · intro x hx
              rcases List.mem_cons.mp hx with rfl | hx
              · exact hn
              · exact hreached x hx
            · intro x hx c hc
              rcases List.mem_cons.mp hx with rfl | hx
              · exact .single ⟨hmem, hc⟩
              · exact (habove x hx n List.mem_cons_self).tail ⟨hmem, hc⟩
          obtain ⟨rest, hrest⟩ := ihnodes
            (fun x hx m hm => habove x hx m (List.mem_cons_of_mem n hm))
            (fun m hm => hnodes m (List.mem_cons_of_mem n hm))
          exact ⟨_, .cons hbelow hrest⟩

theorem exists_walk
    [DecidableEq α] (hf : IsForest kids all roots) (depth : Nat) :
    ∃ out, Walk kids depth roots out := by
  have hlen : all.length < all.length + 1 + ([] : List α).length := by simp
  exact hf.exists_walk_below (all.length + 1) hlen List.nodup_nil (by simp) (by simp)
    (fun r hr => ⟨r, hr, .refl⟩) depth

end IsForest

end Preorder

end Lib
end Otelop
