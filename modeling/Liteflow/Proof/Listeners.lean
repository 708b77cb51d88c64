import Liteflow.Listeners
import Mathlib.Data.List.Pairwise
import Mathlib.Data.List.Perm.Subperm
import Mathlib.Data.List.TakeWhile

/-!
# Reloading the entrances

The sockets after a reload, compared with those of a restart. The first loop leaves a permutation of
what is kept of the old sockets, the second one adds the rules that none of them serves. Addresses and
ports are distinct throughout, so both lists are determined by their members.
-/

namespace Liteflow

def EntranceRule.key (r : EntranceRule) : List Char × U16 :=
  (r.listenAddr, r.listenPort)

def Hsock.key (host : Hsock) : List Char × U16 :=
  (host.localAddr, host.localPort)

theorem Hsock.serves_iff {host : Hsock} {r : EntranceRule} : host.serves r = true ↔ host.key = r.key := by
  simp [serves, key, EntranceRule.key]

theorem Hsock.key_ofRule {r : EntranceRule} (haddr : r.listenAddr.length < addressMaxLen) :
    (ofRule r).key = r.key := by
  have htake : r.listenAddr.take (addressMaxLen - 1) = r.listenAddr :=
    List.take_of_length_le (Nat.le_pred_of_lt haddr)
  simp [key, ofRule, EntranceRule.key, htake]

/-! ### The first loop -/

section Release

variable {protocol : Protocol} {entrances : List EntranceRule}

theorem releaseLoop_perm (front rest : List Hsock) :
    (releaseLoop protocol entrances rest.length front.length (front ++ rest)).Perm
      (front ++ rest.filterMap (keepHsock protocol entrances)) := by
  induction hlen : rest.length generalizing front rest with
  | zero =>
      obtain rfl := List.eq_nil_of_length_eq_zero hlen
      simp [releaseLoop]
  | succ turns ih =>
      obtain ⟨host, tail, rfl⟩ := List.exists_cons_of_length_eq_add_one hlen
      have htail : tail.length = turns := by simpa using hlen
      have hat : (front ++ host :: tail)[front.length]? = some host := by simp
      rw [releaseLoop, hat]
      dsimp only
      cases hkeep : keepHsock protocol entrances host with
      | some kept =>
          have hset : (front ++ host :: tail).set front.length kept = front ++ [kept] ++ tail := by
            simp
          have hperm := ih (front ++ [kept]) tail htail
          rw [List.length_append, List.length_singleton] at hperm
          simp only [hset, List.filterMap_cons_some hkeep]
          simpa using hperm
      | none =>
          simp only [List.filterMap_cons_none hkeep]
          rcases List.eq_nil_or_concat tail with rfl | ⟨start, last, rfl⟩
          · have hturns : turns = 0 := by simpa using htail.symm
            simp [hturns, releaseLoop]
          · -- The last socket comes next, and the others after it.
            have hmoved : ((front ++ host :: (start ++ [last])).set front.length last).dropLast =
                front ++ (last :: start) := by
              simp [List.dropLast_append_of_ne_nil, List.dropLast_cons_of_ne_nil]
            have hlast : (front ++ host :: (start ++ [last])).getLastD host = last := by
              rw [List.getLastD_eq_getLast?]
              simp [List.getLast?_append, List.getLast?_cons]
            have hne : front.length ≠ (front ++ host :: (start ++ [last])).length - 1 := by
              simp
            rw [List.concat_eq_append] at *
            simp only [if_pos hne, hlast, hmoved]
            refine (ih front (last :: start) (by simpa using htail)).trans ?_
            refine List.Perm.append_left front (List.Perm.filterMap _ ?_)
            exact (List.perm_append_singleton last start).symm

theorem keepHsock_eq_some {host kept : Hsock}
    (hkeep : keepHsock protocol entrances host = some kept) :
    ∃ r ∈ activeRules entrances, r.protocol = protocol ∧ host.key = r.key ∧
      kept = { host with tunnelId := r.tunnelId } := by
  obtain ⟨r, hfind, rfl⟩ := Option.map_eq_some_iff.mp hkeep
  have hfound : r.protocol = protocol ∧ host.serves r = true := by
    simpa using List.find?_some hfind
  exact ⟨r, List.mem_of_find?_eq_some hfind, hfound.1, Hsock.serves_iff.mp hfound.2, rfl⟩

theorem exists_keepHsock {host : Hsock} {r : EntranceRule} (hr : r ∈ activeRules entrances)
    (hprotocol : r.protocol = protocol) (hkey : host.key = r.key) :
    ∃ kept, keepHsock protocol entrances host = some kept := by
  unfold keepHsock
  cases hfind : (activeRules entrances).find?
      (fun entry => entry.protocol = protocol ∧ host.serves entry) with
  | some found => exact ⟨_, rfl⟩
  | none =>
      have hnone := List.find?_eq_none.mp hfind r hr
      simp [hprotocol, Hsock.serves_iff.mpr hkey] at hnone

theorem keys_keepHsock_sublist (hsocks : List Hsock) :
    ((hsocks.filterMap (keepHsock protocol entrances)).map Hsock.key).Sublist
      (hsocks.map Hsock.key) := by
  induction hsocks with
  | nil => exact .slnil
  | cons host hsocks ih =>
      cases hkeep : keepHsock protocol entrances host with
      | none =>
          rw [List.filterMap_cons_none hkeep, List.map_cons]
          exact ih.cons _
      | some kept =>
          obtain ⟨r, -, -, -, rfl⟩ := keepHsock_eq_some hkeep
          rw [List.filterMap_cons_some hkeep, List.map_cons, List.map_cons]
          exact ih.cons_cons _

end Release

/-! ### The second loop -/

section Bind

variable {protocol : Protocol} {init : EntranceRule → List Hsock → Int × List Hsock}
  {usable : EntranceRule → Bool}

theorem length_lt_of_keys {hsocks : List Hsock} {r : EntranceRule} {keys : List (List Char × U16)}
    (hroom : keys.length ≤ maxPortNum) (hnodup : (hsocks.map Hsock.key).Nodup)
    (hsub : hsocks.map Hsock.key ⊆ keys) (hr : r.key ∈ keys)
    (hnew : r.key ∉ hsocks.map Hsock.key) : hsocks.length < maxPortNum := by
  have hcons : (r.key :: hsocks.map Hsock.key).Nodup := List.nodup_cons.mpr ⟨hnew, hnodup⟩
  have hle := (hcons.subperm (List.cons_subset.mpr ⟨hr, hsub⟩)).length_le
  rw [List.length_cons, List.length_map] at hle
  omega

theorem bindLoop_foldl
    (hinit : ∀ r hsocks, hsocks.length < maxPortNum →
      (init r hsocks).2 = if usable r then hsocks ++ [.ofRule r] else hsocks)
    (keys : List (List Char × U16)) (hroom : keys.length ≤ maxPortNum) (todo : List EntranceRule)
    (hdistinct : todo.Pairwise (fun r r' => r.protocol = r'.protocol → r.key ≠ r'.key))
    (haddr : ∀ r ∈ todo, r.listenAddr.length < addressMaxLen)
    (htodo : ∀ r ∈ todo, r.protocol = protocol → r.key ∈ keys) (hsocks : List Hsock)
    (hnodup : (hsocks.map Hsock.key).Nodup) (hsub : hsocks.map Hsock.key ⊆ keys) :
    todo.foldl (fun hsocks entry =>
        if entry.protocol ≠ protocol then hsocks
        else if hsocks.any (fun host => host.serves entry) then hsocks
        else (init entry hsocks).2) hsocks =
      hsocks ++ (todo.filter (fun r => r.protocol = protocol ∧ usable r = true ∧
        r.key ∉ hsocks.map Hsock.key)).map Hsock.ofRule := by
  induction todo generalizing hsocks with
  | nil => simp
  | cons r todo ih =>
      obtain ⟨hfirst, hdistinct⟩ := List.pairwise_cons.mp hdistinct
      obtain ⟨hraddr, haddr⟩ := List.forall_mem_cons.mp haddr
      obtain ⟨hr, htodo⟩ := List.forall_mem_cons.mp htodo
      have hserved : hsocks.any (fun host => host.serves r) = true ↔ r.key ∈ hsocks.map Hsock.key := by
        simp only [List.any_eq_true, Hsock.serves_iff, List.mem_map]
      rw [List.foldl_cons]
      by_cases hprotocol : r.protocol = protocol
      · by_cases hknown : r.key ∈ hsocks.map Hsock.key
        · rw [if_neg (not_not.mpr hprotocol), if_pos (hserved.mpr hknown),
            ih hdistinct haddr htodo hsocks hnodup hsub,
            List.filter_cons_of_neg (by simp [hknown])]
        · have hlength := length_lt_of_keys hroom hnodup hsub (hr hprotocol) hknown
          rw [if_neg (not_not.mpr hprotocol), if_neg (fun hany => hknown (hserved.mp hany)),
            hinit r hsocks hlength]
          by_cases husable : usable r = true
          · rw [if_pos husable, List.filter_cons_of_pos (by simp [hprotocol, husable, hknown])]
            have hkeys : (hsocks ++ [Hsock.ofRule r]).map Hsock.key =
                hsocks.map Hsock.key ++ [r.key] := by
              rw [List.map_append, List.map_singleton, Hsock.key_ofRule hraddr]
            rw [ih hdistinct haddr htodo]
            · -- None of the rules behind has the key that has been added.
              rw [List.map_cons, List.append_assoc, List.singleton_append, hkeys]
              congr 3
              refine List.filter_congr fun r' hr' => ?_
              by_cases hprotocol' : r'.protocol = protocol
              · have hne := hfirst r' hr' (hprotocol.trans hprotocol'.symm)
                simp [Ne.symm hne]
              · simp [hprotocol']
            · rw [hkeys, List.nodup_append]
              refine ⟨hnodup, by simp, fun a ha b hb => ?_⟩
              rintro rfl
              exact hknown (List.mem_singleton.mp hb ▸ ha)
            · rw [hkeys]
              exact List.append_subset.mpr ⟨hsub, by simpa using hr hprotocol⟩
          · rw [if_neg husable, ih hdistinct haddr htodo hsocks hnodup hsub,
              List.filter_cons_of_neg (by simp [husable])]
      · rw [if_pos hprotocol, ih hdistinct haddr htodo hsocks hnodup hsub,
          List.filter_cons_of_neg (by simp [hprotocol])]

end Bind

/-! ### Starting -/

section Start

variable (inetPton : List Char → Option IpAddr)

def Usable (r : EntranceRule) : Bool :=
  (inetPton r.listenAddr).isSome

def boundRules (entrances : List EntranceRule) : List EntranceRule :=
  (activeRules entrances).takeWhile (Usable inetPton)

def boundOf (protocol : Protocol) (entrances : List EntranceRule) : List Hsock :=
  ((boundRules inetPton entrances).filter (fun r => r.protocol = protocol)).map Hsock.ofRule

theorem initListeners_eq (entrances : List EntranceRule) (listeners : Listeners)
    (hroom : listeners.udp.length + (activeRules entrances).length ≤ maxPortNum) :
    (initListeners inetPton entrances listeners).2 =
      { tcp := listeners.tcp ++ boundOf inetPton .tcp entrances
        udp := listeners.udp ++ boundOf inetPton .udp entrances } := by
  induction entrances generalizing listeners with
  | nil => simp [initListeners, boundOf, boundRules, activeRules]
  | cons r entrances ih =>
      unfold initListeners
      by_cases hport : r.listenPort = 0
      · have hactive : activeRules (r :: entrances) = [] :=
          List.takeWhile_cons_of_neg (by simp [hport])
        rw [if_pos hport]
        simp [boundOf, boundRules, hactive]
      · have hactive : activeRules (r :: entrances) = r :: activeRules entrances :=
          List.takeWhile_cons_of_pos (decide_eq_true hport)
        rw [hactive, List.length_cons] at hroom
        rw [if_neg hport]
        by_cases husable : (inetPton r.listenAddr).isSome = true
        · have hbound : boundRules inetPton (r :: entrances) = r :: boundRules inetPton entrances := by
            rw [boundRules, hactive]
            exact List.takeWhile_cons_of_pos husable
          cases hprotocol : r.protocol with
          | tcp =>
              simp only [tcpLocalInit, if_pos husable, ne_eq, not_true_eq_false, if_false]
              rw [ih _ (by simp only; omega)]
              simp [boundOf, hbound, hprotocol]
          | udp =>
              have hfull : ¬maxPortNum ≤ listeners.udp.length := by omega
              simp only [udpLocalInit, if_neg hfull, if_pos husable, ne_eq, not_true_eq_false,
                if_false]
              rw [ih _ (by simp only [List.length_append, List.length_singleton]; omega)]
              simp [boundOf, hbound, hprotocol]
        · have hbound : boundRules inetPton (r :: entrances) = [] := by
            rw [boundRules, hactive]
            exact List.takeWhile_cons_of_neg husable
          cases hprotocol : r.protocol with
          | tcp => simp [tcpLocalInit, husable, boundOf, hbound]
          | udp => simp [udpLocalInit, husable, boundOf, hbound]

end Start

/-! ### The comparison -/

namespace RuleTable

variable (inetPton : List Char → Option IpAddr) (table : RuleTable)

theorem length_activeRules_le : (activeRules table.rows).length ≤ maxPortNum := by
  obtain ⟨row, hrow, hport⟩ := table.terminated
  have hne : activeRules table.rows ≠ table.rows := by
    intro heq
    rw [← heq] at hrow
    have := List.mem_takeWhile_imp hrow
    simp [hport] at this
  have hbegins : activeRules table.rows <+: table.rows := List.takeWhile_prefix _
  by_contra hfull
  refine hne (hbegins.eq_of_length ?_)
  have := hbegins.length_le
  have := table.length_eq
  omega

theorem addr_lt_of_active {r : EntranceRule} (hr : r ∈ activeRules table.rows) :
    r.listenAddr.length < addressMaxLen :=
  table.addr_lt r ((List.takeWhile_prefix _).subset hr)

theorem distinct_keys : (activeRules table.rows).Pairwise
    (fun r r' => r.protocol = r'.protocol → r.key ≠ r'.key) :=
  table.distinct

theorem eq_of_key {r r' : EntranceRule} (hr : r ∈ activeRules table.rows)
    (hr' : r' ∈ activeRules table.rows) (hprotocol : r.protocol = r'.protocol)
    (hkey : r.key = r'.key) : r = r' := by
  have hsymm : Std.Symm (fun r r' : EntranceRule => r.protocol = r'.protocol → r.key ≠ r'.key) :=
    ⟨fun _ _ hne hprotocol hkey => hne hprotocol.symm hkey.symm⟩
  by_contra hne
  exact table.distinct_keys.forall hr hr' hne hprotocol hkey

theorem boundRules_subset : boundRules inetPton table.rows ⊆ activeRules table.rows :=
  (List.takeWhile_prefix _).subset

theorem mem_boundOf {protocol : Protocol} {host : Hsock} :
    host ∈ boundOf inetPton protocol table.rows ↔
      ∃ r ∈ boundRules inetPton table.rows, r.protocol = protocol ∧ Hsock.ofRule r = host := by
  simp [boundOf, and_assoc]

theorem key_of_bound {r : EntranceRule} (hr : r ∈ activeRules table.rows) :
    (Hsock.ofRule r).key = r.key :=
  Hsock.key_ofRule (table.addr_lt_of_active hr)

theorem nodup_keys_boundOf (protocol : Protocol) :
    ((boundOf inetPton protocol table.rows).map Hsock.key).Nodup := by
  rw [boundOf, List.map_map, List.Nodup, List.pairwise_map]
  have hsub : ((boundRules inetPton table.rows).filter (fun r => r.protocol = protocol)).Sublist
      (activeRules table.rows) :=
    List.filter_sublist.trans (List.takeWhile_prefix _).sublist
  refine (List.Pairwise.sublist hsub table.distinct_keys).imp_of_mem fun {r r'} hr hr' hne => ?_
  have hprotocol : r.protocol = r'.protocol := by
    have h := List.of_mem_filter hr
    have h' := List.of_mem_filter hr'
    simp only [decide_eq_true_eq] at h h'
    exact h.trans h'.symm
  simp only [Function.comp_apply, key_of_bound table (hsub.subset hr),
    key_of_bound table (hsub.subset hr')]
  exact hne hprotocol

theorem localReload_eq {protocol : Protocol}
    {init : EntranceRule → List Hsock → Int × List Hsock}
    (hinit : ∀ r hsocks, hsocks.length < maxPortNum →
      (init r hsocks).2 = if Usable inetPton r then hsocks ++ [.ofRule r] else hsocks)
    {hsocks : List Hsock} (hnodup : (hsocks.map Hsock.key).Nodup) :
    ∃ kept, kept.Perm (hsocks.filterMap (keepHsock protocol table.rows)) ∧
      (kept.map Hsock.key).Nodup ∧
      localReload protocol init table.rows hsocks =
        kept ++ ((activeRules table.rows).filter (fun r => r.protocol = protocol ∧
          Usable inetPton r = true ∧ r.key ∉ kept.map Hsock.key)).map Hsock.ofRule := by
  have hperm : (releaseLoop protocol table.rows hsocks.length 0 hsocks).Perm
      (hsocks.filterMap (keepHsock protocol table.rows)) :=
    releaseLoop_perm [] hsocks
  set kept := releaseLoop protocol table.rows hsocks.length 0 hsocks with hkept
  have hkeys : (kept.map Hsock.key).Nodup :=
    (hperm.map Hsock.key).nodup_iff.mpr (hnodup.sublist (keys_keepHsock_sublist hsocks))
  refine ⟨kept, hperm, hkeys, ?_⟩
  refine bindLoop_foldl hinit
    (((activeRules table.rows).filter (fun r => r.protocol = protocol)).map EntranceRule.key)
    ?_ _ table.distinct_keys (fun r hr => table.addr_lt_of_active hr) ?_ kept hkeys ?_
  · rw [List.length_map]
    exact (List.length_filter_le ..).trans table.length_activeRules_le
  · intro r hr hprotocol
    exact List.mem_map_of_mem (List.mem_filter.mpr ⟨hr, by simpa using hprotocol⟩)
  · intro key hkey
    obtain ⟨host, hhost, rfl⟩ := List.mem_map.mp hkey
    obtain ⟨old, -, hkeep⟩ := List.mem_filterMap.mp (hperm.mem_iff.mp hhost)
    obtain ⟨r, hr, hprotocol, hold, rfl⟩ := keepHsock_eq_some hkeep
    exact List.mem_map.mpr ⟨r, List.mem_filter.mpr ⟨hr, by simpa using hprotocol⟩, hold.symm⟩

end RuleTable

section Comparison

variable {inetPton : List Char → Option IpAddr} {old new : RuleTable} {protocol : Protocol}
  {init : EntranceRule → List Hsock → Int × List Hsock}

/-- What a reload has to find: the rules that can be opened stand before the first one that cannot,
and a rule that is there already has its node id. -/
structure Carried (inetPton : List Char → Option IpAddr) (protocol : Protocol)
    (old new : RuleTable) : Prop where
  opened : ∀ r ∈ activeRules new.rows, r.protocol = protocol → Usable inetPton r = true →
    r ∈ boundRules inetPton new.rows
  nodes : ∀ o ∈ boundRules inetPton old.rows, ∀ r ∈ activeRules new.rows, o.protocol = protocol →
    r.protocol = protocol → o.key = r.key → o.nodeId = r.nodeId

theorem mem_kept_iff {host : Hsock} :
    host ∈ (boundOf inetPton protocol old.rows).filterMap (keepHsock protocol new.rows) ↔
      ∃ o ∈ boundRules inetPton old.rows, ∃ r ∈ activeRules new.rows, o.protocol = protocol ∧
        r.protocol = protocol ∧ o.key = r.key ∧
          host = { Hsock.ofRule o with tunnelId := r.tunnelId } := by
  rw [List.mem_filterMap]
  constructor
  · rintro ⟨host', hhost', hkeep⟩
    obtain ⟨o, ho, hprotocol, rfl⟩ := old.mem_boundOf inetPton |>.mp hhost'
    obtain ⟨r, hr, hrprotocol, hkey, rfl⟩ := keepHsock_eq_some hkeep
    rw [old.key_of_bound (old.boundRules_subset inetPton ho)] at hkey
    exact ⟨o, ho, r, hr, hprotocol, hrprotocol, hkey, rfl⟩
  · rintro ⟨o, ho, r, hr, hprotocol, hrprotocol, hkey, rfl⟩
    have hokey := old.key_of_bound (old.boundRules_subset inetPton ho)
    obtain ⟨kept, hkeep⟩ := exists_keepHsock hr hrprotocol (hokey.trans hkey)
    obtain ⟨r', hr', hrprotocol', hkey', rfl⟩ := keepHsock_eq_some hkeep
    obtain rfl : r' = r :=
      new.eq_of_key hr' hr (hrprotocol'.trans hrprotocol.symm)
        (hkey'.symm.trans (hokey.trans hkey))
    exact ⟨Hsock.ofRule o, (old.mem_boundOf inetPton).mpr ⟨o, ho, hprotocol, rfl⟩, hkeep⟩

theorem ofRule_eq_of_key {o r : EntranceRule} (hkey : o.key = r.key) (hnode : o.nodeId = r.nodeId) :
    { Hsock.ofRule o with tunnelId := r.tunnelId } = Hsock.ofRule r := by
  obtain ⟨haddr, hport⟩ := Prod.mk.inj hkey
  simp [Hsock.ofRule, haddr, hport, hnode]

theorem localReload_perm_iff
    (hinit : ∀ r hsocks, hsocks.length < maxPortNum →
      (init r hsocks).2 = if Usable inetPton r then hsocks ++ [.ofRule r] else hsocks) :
    (localReload protocol init new.rows (boundOf inetPton protocol old.rows)).Perm
      (boundOf inetPton protocol new.rows) ↔ Carried inetPton protocol old new := by
  obtain ⟨kept, hperm, hkeys, hreload⟩ :=
    new.localReload_eq inetPton hinit (old.nodup_keys_boundOf inetPton protocol)
  have hmem : ∀ host, host ∈ localReload protocol init new.rows
      (boundOf inetPton protocol old.rows) ↔ host ∈ kept ∨ ∃ r ∈ activeRules new.rows,
        (r.protocol = protocol ∧ Usable inetPton r = true ∧ r.key ∉ kept.map Hsock.key) ∧
          Hsock.ofRule r = host := by
    intro host
    rw [hreload]
    simp only [List.mem_append, List.mem_map, List.mem_filter, decide_eq_true_eq, and_assoc]
  have hkept : ∀ host, host ∈ kept ↔ _ := fun host => hperm.mem_iff.trans mem_kept_iff
  constructor
  · intro hsame
    -- The socket of a start that has the key of a new rule is the one of that rule.
    have hfresh : ∀ host ∈ localReload protocol init new.rows
        (boundOf inetPton protocol old.rows), ∀ r ∈ activeRules new.rows, r.protocol = protocol →
          host.key = r.key → r ∈ boundRules inetPton new.rows ∧ host = Hsock.ofRule r := by
      intro host hhost r hr hprotocol hkey
      obtain ⟨r', hr', hprotocol', rfl⟩ := (new.mem_boundOf inetPton).mp (hsame.mem_iff.mp hhost)
      have hactive := new.boundRules_subset inetPton hr'
      obtain rfl : r' = r := new.eq_of_key hactive hr (hprotocol'.trans hprotocol.symm)
        ((new.key_of_bound hactive).symm.trans hkey)
      exact ⟨hr', rfl⟩
    constructor
    · intro r hr hprotocol husable
      by_cases hserved : r.key ∈ kept.map Hsock.key
      · obtain ⟨host, hhost, hkey⟩ := List.mem_map.mp hserved
        exact (hfresh host ((hmem host).mpr (.inl hhost)) r hr hprotocol hkey).1
      · exact (hfresh _ ((hmem _).mpr (.inr ⟨r, hr, ⟨hprotocol, husable, hserved⟩, rfl⟩)) r hr
          hprotocol (new.key_of_bound hr)).1
    · intro o ho r hr hoprotocol hprotocol hkey
      have hhost := (hkept _).mpr ⟨o, ho, r, hr, hoprotocol, hprotocol, hkey, rfl⟩
      have hokey := old.key_of_bound (old.boundRules_subset inetPton ho)
      have heq := (hfresh _ ((hmem _).mpr (.inl hhost)) r hr hprotocol (hokey.trans hkey)).2
      exact congrArg Hsock.peerForward heq
  · intro hcarried
    have hnodup : (localReload protocol init new.rows
        (boundOf inetPton protocol old.rows)).Nodup := by
      rw [hreload, List.nodup_append]
      refine ⟨hkeys.of_map _, ?_, ?_⟩
      · refine List.Nodup.map_on ?_ (List.Nodup.filter _ ?_)
        · intro r hr r' hr' heq
          have hr := List.mem_filter.mp hr
          have hr' := List.mem_filter.mp hr'
          simp only [decide_eq_true_eq] at hr hr'
          refine new.eq_of_key hr.1 hr'.1 (hr.2.1.trans hr'.2.1.symm) ?_
          rw [← new.key_of_bound hr.1, ← new.key_of_bound hr'.1, heq]
        · exact new.distinct_keys.imp fun hne heq => hne (by rw [heq]) (by rw [heq])
      · rintro host hhost other hother rfl
        obtain ⟨r, hr, heq⟩ := List.mem_map.mp hother
        have hr := List.mem_filter.mp hr
        simp only [decide_eq_true_eq] at hr
        refine hr.2.2.2 (List.mem_map.mpr ⟨host, hhost, ?_⟩)
        rw [← heq, new.key_of_bound hr.1]
    have hnodup' : (boundOf inetPton protocol new.rows).Nodup :=
      (new.nodup_keys_boundOf inetPton protocol).of_map _
    refine (List.perm_ext_iff_of_nodup hnodup hnodup').mpr fun host => ?_
    rw [hmem, hkept, new.mem_boundOf inetPton]
    constructor
    · rintro (⟨o, ho, r, hr, hoprotocol, hprotocol, hkey, rfl⟩ |
        ⟨r, hr, ⟨hprotocol, husable, -⟩, rfl⟩)
      · have husable : Usable inetPton r = true := by
          have ho := List.mem_takeWhile_imp ho
          rwa [Usable, (Prod.mk.inj hkey).1] at ho
        exact ⟨r, hcarried.opened r hr hprotocol husable, hprotocol,
          (ofRule_eq_of_key hkey (hcarried.nodes o ho r hr hoprotocol hprotocol hkey)).symm⟩
      · exact ⟨r, hcarried.opened r hr hprotocol husable, hprotocol, rfl⟩
    · rintro ⟨r, hr, hprotocol, rfl⟩
      have hactive := new.boundRules_subset inetPton hr
      by_cases hserved : r.key ∈ kept.map Hsock.key
      · left
        obtain ⟨host, hhost, hkey⟩ := List.mem_map.mp hserved
        obtain ⟨o, ho, r', hr', hoprotocol, hprotocol', hkey', rfl⟩ := (hkept host).mp hhost
        have hokey := old.key_of_bound (old.boundRules_subset inetPton ho)
        have hkey : o.key = r.key := hokey.symm.trans hkey
        exact ⟨o, ho, r, hactive, hoprotocol, hprotocol, hkey,
          (ofRule_eq_of_key hkey
            (hcarried.nodes o ho r hactive hoprotocol hprotocol hkey)).symm⟩
      · exact .inr ⟨r, hactive, ⟨hprotocol, List.mem_takeWhile_imp hr, hserved⟩, rfl⟩

theorem tcpLocalInit_snd (r : EntranceRule) (hsocks : List Hsock) :
    (tcpLocalInit inetPton r hsocks).2 =
      if Usable inetPton r then hsocks ++ [.ofRule r] else hsocks := by
  unfold tcpLocalInit Usable
  split <;> rfl

theorem udpLocalInit_snd (r : EntranceRule) (hsocks : List Hsock)
    (hroom : hsocks.length < maxPortNum) :
    (udpLocalInit inetPton r hsocks).2 =
      if Usable inetPton r then hsocks ++ [.ofRule r] else hsocks := by
  unfold udpLocalInit Usable
  rw [if_neg (Nat.not_le.mpr hroom)]
  split <;> rfl

end Comparison

def started (inetPton : List Char → Option IpAddr) (table : RuleTable) : Listeners :=
  (initListeners inetPton table.rows { tcp := [], udp := [] }).2

theorem started_eq (inetPton : List Char → Option IpAddr) (table : RuleTable) :
    started inetPton table =
      { tcp := boundOf inetPton .tcp table.rows, udp := boundOf inetPton .udp table.rows } := by
  have hroom := table.length_activeRules_le
  rw [started, initListeners_eq inetPton table.rows _ (by simpa using hroom)]
  simp

def Listeners.Same (a b : Listeners) : Prop :=
  a.tcp.Perm b.tcp ∧ a.udp.Perm b.udp

/-- A reload is a restart exactly if it finds the rules as `Carried` says: it goes on behind a rule
that cannot be opened, where the start ends, and leaves `peer_forward` of a socket that it keeps. -/
theorem reloadListeners_same_iff (inetPton : List Char → Option IpAddr) (old new : RuleTable) :
    (reloadListeners inetPton new.rows (started inetPton old)).Same (started inetPton new) ↔
      ∀ protocol, Carried inetPton protocol old new := by
  rw [started_eq, started_eq]
  have htcp : (localReload .tcp (tcpLocalInit inetPton) new.rows
      (boundOf inetPton .tcp old.rows)).Perm (boundOf inetPton .tcp new.rows) ↔
        Carried inetPton .tcp old new :=
    localReload_perm_iff fun r hsocks _ => tcpLocalInit_snd r hsocks
  have hudp : (localReload .udp (udpLocalInit inetPton) new.rows
      (boundOf inetPton .udp old.rows)).Perm (boundOf inetPton .udp new.rows) ↔
        Carried inetPton .udp old new :=
    localReload_perm_iff udpLocalInit_snd
  refine (Iff.and htcp hudp).trans ⟨fun h protocol => ?_, fun h => ⟨h .tcp, h .udp⟩⟩
  cases protocol with
  | tcp => exact h.1
  | udp => exact h.2

def anyAddress : List Char :=
  ['0', '.', '0', '.', '0', '.', '0']

/-- `inet_pton`, as far as the address of the rule is concerned. -/
def anyPton (addr : List Char) : Option IpAddr :=
  if addr = anyAddress then some (.v4 0) else none

def entranceTo (nodeId : U16) : RuleTable where
  rows := { EntranceRule.zero with listenAddr := anyAddress, listenPort := 80, nodeId := nodeId } ::
    List.replicate maxPortNum .zero
  length_eq := by simp
  terminated := ⟨.zero, by simp [maxPortNum], rfl⟩
  addr_lt := by simp [maxPortNum, addressMaxLen, EntranceRule.zero, anyAddress]
  distinct := by simp [activeRules, EntranceRule.zero]

/-- The entrance goes to node 1, and after the reload it should go to node 2. -/
theorem not_same_nodeId :
    ¬(reloadListeners anyPton (entranceTo 2).rows (started anyPton (entranceTo 1))).Same
      (started anyPton (entranceTo 2)) := by
  rintro ⟨htcp, -⟩
  have hmem := (htcp.mem_iff (a := ⟨anyAddress, 80, 0, 2⟩)).mpr (by decide)
  revert hmem
  decide

end Liteflow
