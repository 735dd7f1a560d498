import DleynaCore.Connector.ConnectorMgr

/-!
# Modules and their holders

The table has one entry for a connector, however often it was loaded, and the first release removes it.
So the references of a module follow its holders as long as no connector is loaded while it is held;
otherwise there may be too many of them, but never too few.
-/

namespace DleynaCore

variable {lib : ModuleLib} {connectorDir : String} {s : ConnectorClient} {mgr : ConnectorMgr}
  {c : Connector} {m m' : GModule} {ops : List ConnectorOp}

/-! ## The calls -/

/-- A load that returned a connector. -/
structure Loaded (s s' : ConnectorClient) (c : Connector) (m : GModule) : Prop where
  held : s'.held = (c, m) :: s.held
  entry : ∀ c', s'.mgr.entry c' = if c' = c then some m else s.mgr.entry c'
  opened : ∀ m', s'.mgr.opened m' = s.mgr.opened m' + if m' = m then 1 else 0
  closed : ∀ m', s'.mgr.closed m' = s.mgr.closed m'
  rejected : s'.mgr.rejected = s.mgr.rejected

/-- A call that has changed nothing but, perhaps, made a table without entries, or opened a module and
closed it again. -/
structure Idle (s s' : ConnectorClient) : Prop where
  held : s'.held = s.held
  entry : ∀ c', s'.mgr.entry c' = s.mgr.entry c'
  matched : s.mgr.Matched s'.mgr
  rejected : s'.mgr.rejected = s.mgr.rejected

/-- The table that the first load makes has no entries. -/
theorem find?_getD (mgr : ConnectorMgr) (c : Connector) :
    (mgr.gConnectors.getD .empty).find? c = mgr.entry c := by
  unfold ConnectorMgr.entry
  cases mgr.gConnectors <;> rfl

/-- A counter that is raised if `p`. -/
theorem ite_succ (n : Nat) (p : Prop) [Decidable p] :
    (if p then n + 1 else n) = n + if p then 1 else 0 := by
  split <;> rfl

/-- A load returns the connector of its module, or fails and leaves the references as they were. -/
theorem load_cases (lib : ModuleLib) (connectorDir : String) (s : ConnectorClient) (name : String)
    (opens : Bool) :
    (∃ c, opens = true ∧
      c ∈ lib.getInterface (lib.moduleAt (connectorPath connectorDir name)) ∧
      Loaded s (s.load lib connectorDir name opens) c
        (lib.moduleAt (connectorPath connectorDir name))) ∨
    Idle s (s.load lib connectorDir name opens) := by
  cases opens with
  | false => exact Or.inr ⟨rfl, fun _ => rfl, fun _ => ⟨0, rfl, rfl⟩, rfl⟩
  | true =>
    cases hc : lib.getInterface (lib.moduleAt (connectorPath connectorDir name)) with
    | none =>
      refine Or.inr ?_
      simp only [ConnectorClient.load, dleynaConnectorMgrLoad, gModuleOpen, if_true, hc]
      constructor
      case held => rfl
      case entry =>
        intro c'
        exact find?_getD s.mgr c'
      case matched =>
        intro m'
        exact ⟨_, ite_succ _ _, ite_succ _ _⟩
      case rejected => rfl
    | some c =>
      refine Or.inl ⟨c, rfl, rfl, ?_⟩
      simp only [ConnectorClient.load, dleynaConnectorMgrLoad, gModuleOpen, if_true, hc]
      constructor
      case held => rfl
      case entry =>
        intro c'
        show (HashTable.insert _ c _).find? c' = _
        rw [HashTable.find?_insert Function.injective_id]
        exact if_congr Iff.rfl rfl (find?_getD s.mgr c')
      case opened =>
        intro m'
        exact ite_succ _ _
      case closed =>
        intro m'
        rfl
      case rejected => rfl

/-- A release of a connector that is in the table closes the module of its entry, and removes it. -/
theorem release_entry (h : mgr.entry c = some m) :
    (∀ c', (dleynaConnectorMgrRelease mgr c).entry c' = if c' = c then none else mgr.entry c') ∧
    (∀ m', (dleynaConnectorMgrRelease mgr c).opened m' = mgr.opened m') ∧
    (∀ m', (dleynaConnectorMgrRelease mgr c).closed m' =
      mgr.closed m' + if m' = m then 1 else 0) ∧
    (dleynaConnectorMgrRelease mgr c).rejected = mgr.rejected := by
  obtain ⟨table, htable, hfind⟩ := Option.bind_eq_some_iff.mp h
  have hrelease : dleynaConnectorMgrRelease mgr c =
      { gModuleClose mgr m with
        gConnectors := (some (table.erase c)).filter fun table => table.size ≠ 0 } := by
    simp only [dleynaConnectorMgrRelease, gConnectorsLookup, htable, hfind, gModuleClose,
      Option.map_some]
  rw [hrelease]
  refine ⟨fun c' => ?_, fun _ => rfl, fun m' => ite_succ _ _, rfl⟩
  · have hentry : mgr.entry c' = table.find? c' := by rw [ConnectorMgr.entry, htable, Option.bind_some]
    rw [hentry, ← HashTable.find?_erase, ConnectorMgr.entry]
    by_cases hsize : (table.erase c).size = 0
    · rw [HashTable.size_eq_zero.mp hsize c']
      simp [Option.filter, hsize]
    · simp [Option.filter, hsize]

/-- A release of another connector leaves the entries and the references as they are. -/
theorem release_none (h : mgr.entry c = none) :
    (∀ c', (dleynaConnectorMgrRelease mgr c).entry c' = mgr.entry c') ∧
    (∀ m', (dleynaConnectorMgrRelease mgr c).opened m' = mgr.opened m') ∧
    ∀ m', (dleynaConnectorMgrRelease mgr c).closed m' = mgr.closed m' := by
  cases htable : mgr.gConnectors with
  | none =>
    have hrelease : dleynaConnectorMgrRelease mgr c = { mgr with rejected := mgr.rejected + 1 } := by
      simp only [dleynaConnectorMgrRelease, gConnectorsLookup, htable]
    rw [hrelease]
    exact ⟨fun _ => rfl, fun _ => rfl, fun _ => rfl⟩
  | some table =>
    have hfind : table.find? c = none := by
      rwa [ConnectorMgr.entry, htable] at h
    have hrelease : dleynaConnectorMgrRelease mgr c = mgr := by
      simp only [dleynaConnectorMgrRelease, gConnectorsLookup, htable, hfind]
    rw [hrelease]
    exact ⟨fun _ => rfl, fun _ => rfl, fun _ => rfl⟩

/-- What is held after the release of a connector that is held. -/
theorem held_release (h : c ∈ s.held.map Prod.fst) :
    ∃ m, s.held.Perm ((c, m) :: (s.release c).held) := by
  obtain ⟨x, hx, rfl⟩ := List.mem_map.mp h
  obtain ⟨y, before, after, -, hy, hsplit, herase⟩ :=
    List.exists_of_eraseP (p := fun h => decide (h.1 = x.1)) hx (decide_eq_true rfl)
  have hyx : y.1 = x.1 := of_decide_eq_true hy
  have hheld : (s.release x.1).held = before ++ after := herase
  refine ⟨y.2, ?_⟩
  rw [hheld, hsplit, ← hyx]
  exact List.perm_middle

/-! ## Runs without repeated loads -/

/-- The table and the references are those of what is held. -/
structure FollowsHeld (s : ConnectorClient) : Prop where
  entry : ∀ c m, s.mgr.entry c = some m ↔ (c, m) ∈ s.held
  nodup : (s.held.map Prod.fst).Nodup
  references : ∀ m, s.mgr.opened m = s.mgr.closed m + (s.held.map Prod.snd).count m
  rejected : s.mgr.rejected = 0

theorem count_module (m m' : GModule) (l : List GModule) :
    (m :: l).count m' = l.count m' + if m' = m then 1 else 0 := by
  rw [List.count_cons]
  by_cases h : m' = m
  · simp [h]
  · simp [h, Ne.symm h]

/-- A release takes one holder from its module. -/
theorem count_release (hperm : s.held.Perm ((c, m) :: (s.release c).held)) (m' : GModule) :
    (s.held.map Prod.snd).count m' =
      ((s.release c).held.map Prod.snd).count m' + if m' = m then 1 else 0 := by
  rw [(hperm.map Prod.snd).count_eq m', List.map_cons, count_module]

theorem FollowsHeld.idle {s' : ConnectorClient} (h : FollowsHeld s) (hi : Idle s s') :
    FollowsHeld s' where
  entry c m := by rw [hi.entry, hi.held, h.entry]
  nodup := by rw [hi.held]; exact h.nodup
  references m := by
    obtain ⟨n, ho, hc⟩ := hi.matched m
    rw [ho, hc, hi.held, h.references]
    omega
  rejected := by rw [hi.rejected, h.rejected]

theorem FollowsHeld.loaded {s' : ConnectorClient} (h : FollowsHeld s) (hl : Loaded s s' c m)
    (hnew : c ∉ s.held.map Prod.fst) : FollowsHeld s' where
  entry c' m' := by
    rw [hl.entry, hl.held, List.mem_cons, Prod.mk.injEq]
    by_cases hc : c' = c
    · subst hc
      have hnot : (c', m') ∉ s.held := fun hmem => hnew (List.mem_map_of_mem hmem)
      simp [hnot, eq_comm]
    · rw [if_neg hc, h.entry]
      simp [hc]
  nodup := by
    rw [hl.held, List.map_cons]
    exact List.nodup_cons.mpr ⟨hnew, h.nodup⟩
  references m' := by
    rw [hl.opened, hl.closed, hl.held, h.references, List.map_cons, count_module, Nat.add_assoc]
  rejected := by rw [hl.rejected, h.rejected]

theorem FollowsHeld.release (h : FollowsHeld s) (hc : c ∈ s.held.map Prod.fst) :
    FollowsHeld (s.release c) := by
  obtain ⟨m, hperm⟩ := held_release hc
  have hentry : s.mgr.entry c = some m := (h.entry c m).mpr (hperm.mem_iff.mpr List.mem_cons_self)
  obtain ⟨hentries, hopened, hclosed, hrejected⟩ := release_entry hentry
  have hnodup := (hperm.map Prod.fst).nodup_iff.mp h.nodup
  rw [List.map_cons, List.nodup_cons] at hnodup
  constructor
  case entry =>
    intro c' m'
    show (dleynaConnectorMgrRelease s.mgr c).entry c' = some m' ↔ _
    rw [hentries]
    by_cases hc' : c' = c
    · subst hc'
      have hnot : (c', m') ∉ (s.release c').held := by
        intro hmem
        exact hnodup.1 (List.mem_map.mpr ⟨(c', m'), hmem, rfl⟩)
      simp [hnot]
    · rw [if_neg hc', h.entry, hperm.mem_iff]
      simp [hc']
  case nodup => exact hnodup.2
  case references =>
    intro m'
    show (dleynaConnectorMgrRelease s.mgr c).opened m' =
      (dleynaConnectorMgrRelease s.mgr c).closed m' + _
    have heq := h.references m'
    rw [count_release hperm] at heq
    rw [hopened, hclosed, heq]
    omega
  case rejected => exact hrejected.trans h.rejected

theorem followsHeld_run
    (h : (connectorClient lib connectorDir).Run (LoadsAnew lib connectorDir) ops s) : FollowsHeld s := by
  refine h.invariant (I := FollowsHeld) ?_ ?_
  · exact ⟨fun c m => by simp [connectorClient, ConnectorMgr.entry], List.nodup_nil, fun _ => rfl, rfl⟩
  · intro ops s op s' _ hfollows hguard hnew hs
    cases op with
    | load name opens =>
      cases hs
      rcases load_cases lib connectorDir s name opens with ⟨c, hopens, hc, hloaded⟩ | hidle
      · refine hfollows.loaded hloaded fun hmem => ?_
        obtain ⟨h, hheld, rfl⟩ := List.mem_map.mp hmem
        exact hnew hopens h hheld hc
      · exact hfollows.idle hidle
    | release c =>
      cases hs
      exact hfollows.release hguard

theorem FollowsHeld.openWhileHeld (h : FollowsHeld s) : OpenWhileHeld s where
  isOpen := by
    intro m
    rw [ConnectorMgr.IsOpen, h.references, Nat.lt_add_right_iff_pos, List.count_pos_iff]
  closed := by
    intro m
    rw [h.references]
    exact Nat.le_add_right _ _
  allClosed := by
    intro hnone m
    rw [h.references, hnone]
    rfl
  notRejected := h.rejected

/-- As long as no connector is loaded while it is held, modules are open exactly while they are held. -/
theorem openWhileHeld_run
    (h : (connectorClient lib connectorDir).Run (LoadsAnew lib connectorDir) ops s) : OpenWhileHeld s :=
  (followsHeld_run h).openWhileHeld

/-- One module, for every path. -/
def oneModule : ModuleLib where
  moduleAt _ := 7
  getInterface _ := some 1

/-- A connector that is loaded again after it was released. -/
theorem openWhileHeld_reloaded :
    OpenWhileHeld ((connectorClient oneModule "dir").final (LoadsAnew oneModule "dir")
      [.load "dbus" true, .release 1, .load "dbus" true]) :=
  openWhileHeld_run (System.run_final (by decide))

/-- Every call is allowed. -/
def AnyCall (_ : ConnectorClient) (_ : ConnectorOp) : Prop := True

instance (s : ConnectorClient) (op : ConnectorOp) : Decidable (AnyCall s op) := isTrue trivial

/-- A connector that is loaded twice and released twice: its module keeps a reference, and the second
release looks into a table that is no more. -/
theorem doubleLoad_leaks :
    let ops := [.load "dbus" true, .load "dbus" true, .release 1, .release 1]
    let s := (connectorClient oneModule "dir").final AnyCall ops
    (connectorClient oneModule "dir").Run AnyCall ops s ∧ s.held = [] ∧ s.mgr.opened 7 = 2 ∧
      s.mgr.closed 7 = 1 ∧ s.mgr.rejected = 1 ∧ ¬ OpenWhileHeld s := by
  refine ⟨System.run_final (by decide), by decide, by decide, by decide, by decide, fun h => ?_⟩
  exact absurd h.notRejected (by decide)

/-! ## All runs -/

/-- A module has a reference for each of its holders, and everything is known by the connector of its
module. -/
structure Referenced (lib : ModuleLib) (s : ConnectorClient) : Prop where
  references : ∀ m, s.mgr.closed m + (s.held.map Prod.snd).count m ≤ s.mgr.opened m
  entry : ∀ c m, s.mgr.entry c = some m → c ∈ lib.getInterface m
  held : ∀ h ∈ s.held, h.1 ∈ lib.getInterface h.2

theorem Referenced.loaded {s' : ConnectorClient} (h : Referenced lib s) (hl : Loaded s s' c m)
    (hc : c ∈ lib.getInterface m) : Referenced lib s' where
  references m' := by
    rw [hl.opened, hl.closed, hl.held, List.map_cons, count_module, ← Nat.add_assoc]
    exact Nat.add_le_add_right (h.references m') _
  entry c' m' hentry := by
    rw [hl.entry] at hentry
    split at hentry
    · next heq =>
      cases hentry
      exact heq ▸ hc
    · exact h.entry c' m' hentry
  held := by
    rw [hl.held]
    exact List.forall_mem_cons.mpr ⟨hc, h.held⟩

theorem Referenced.idle {s' : ConnectorClient} (h : Referenced lib s) (hi : Idle s s') :
    Referenced lib s' where
  references m := by
    obtain ⟨n, ho, hc⟩ := hi.matched m
    have hle := h.references m
    rw [ho, hc, hi.held]
    omega
  entry c m := by rw [hi.entry]; exact h.entry c m
  held := by rw [hi.held]; exact h.held

/-- A release closes one reference at most, to the module `m` of the connector, and adds no entry. -/
theorem release_le (hm : ∀ m0, mgr.entry c = some m0 → m0 = m) :
    (∀ m', (dleynaConnectorMgrRelease mgr c).opened m' = mgr.opened m') ∧
    (∀ m', (dleynaConnectorMgrRelease mgr c).closed m' ≤ mgr.closed m' + if m' = m then 1 else 0) ∧
    ∀ c' m', (dleynaConnectorMgrRelease mgr c).entry c' = some m' → mgr.entry c' = some m' := by
  cases hentry : mgr.entry c with
  | none =>
    obtain ⟨hentries, hopened, hclosed⟩ := release_none hentry
    refine ⟨hopened, fun m' => ?_, fun c' m' he => ?_⟩
    · rw [hclosed]
      exact Nat.le_add_right _ _
    · rwa [hentries] at he
  | some m0 =>
    obtain rfl := hm m0 hentry
    obtain ⟨hentries, hopened, hclosed, -⟩ := release_entry hentry
    refine ⟨hopened, fun m' => Nat.le_of_eq (hclosed m'), fun c' m' he => ?_⟩
    · rw [hentries] at he
      split at he
      · cases he
      · exact he

/-- The module that loses a reference is that of the holder that is taken away. -/
theorem Referenced.release
    (hinj : ∀ m m' c, c ∈ lib.getInterface m → c ∈ lib.getInterface m' → m = m')
    (h : Referenced lib s) (hc : c ∈ s.held.map Prod.fst) : Referenced lib (s.release c) := by
  obtain ⟨m, hperm⟩ := held_release hc
  have hm : c ∈ lib.getInterface m := h.held (c, m) (hperm.mem_iff.mpr List.mem_cons_self)
  obtain ⟨hopened, hclosed, hentries⟩ :=
    release_le fun m0 hentry => hinj m0 m c (h.entry c m0 hentry) hm
  constructor
  case references =>
    intro m'
    show (dleynaConnectorMgrRelease s.mgr c).closed m' + _ ≤
      (dleynaConnectorMgrRelease s.mgr c).opened m'
    have hle := h.references m'
    have hclose := hclosed m'
    rw [count_release hperm] at hle
    rw [hopened]
    omega
  case entry =>
    intro c' m' he
    exact h.entry c' m' (hentries c' m' he)
  case held =>
    intro x hx
    exact h.held x (hperm.mem_iff.mpr (List.mem_cons_of_mem _ hx))

/-- Where every module has an interface of its own, no module is closed while it is held, however often
its connector is loaded. -/
theorem held_isOpen {P : ConnectorClient → ConnectorOp → Prop}
    (hinj : ∀ m m' c, c ∈ lib.getInterface m → c ∈ lib.getInterface m' → m = m')
    (h : (connectorClient lib connectorDir).Run P ops s) :
    ∀ x ∈ s.held, s.mgr.IsOpen x.2 := by
  have href : Referenced lib s := by
    refine h.invariant (I := Referenced lib) ?_ ?_
    · exact ⟨fun _ => Nat.le_refl 0, fun c m => by simp [connectorClient, ConnectorMgr.entry],
        by simp [connectorClient]⟩
    · intro ops s op s' _ href hguard _ hs
      cases op with
      | load name opens =>
        cases hs
        rcases load_cases lib connectorDir s name opens with ⟨c, -, hc, hloaded⟩ | hidle
        · exact href.loaded hloaded hc
        · exact href.idle hidle
      | release c =>
        cases hs
        exact href.release hinj hguard
  intro x hx
  have hpos : 0 < (s.held.map Prod.snd).count x.2 := List.count_pos_iff.mpr (List.mem_map_of_mem hx)
  exact Nat.lt_of_lt_of_le (Nat.lt_add_of_pos_right hpos) (href.references x.2)

end DleynaCore
