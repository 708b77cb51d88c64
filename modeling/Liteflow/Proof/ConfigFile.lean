import Liteflow.ConfigFile
import Mathlib.Data.List.GetD
import Mathlib.Data.List.TakeWhile

/-!
# Reading the configuration

Where `peers_parser` writes, and what a reload makes of a file compared with a restart.
-/

namespace Liteflow

/-! ### The list of peers -/

theorem length_cString_le (text : List Char) : (cString text).length ≤ text.length :=
  (List.takeWhile_prefix _).length_le

theorem ne_nul_of_mem_cString {text : List Char} {c : Char} (hc : c ∈ cString text) : c ≠ nul := by
  unfold cString at hc
  simpa using List.mem_takeWhile_imp hc

theorem storePeers_strings {texts : List (List Char)}
    (hshort : ∀ text ∈ texts, text.length < domainPortMaxLen) (arrayIdx : Nat) (mem : Nat → Char) :
    storePeers arrayIdx (texts.map .string) mem = (.noError, fun k =>
      if arrayIdx ≤ k / domainPortMaxLen ∧
          k / domainPortMaxLen < min (arrayIdx + texts.length) maxPortNum ∧
            k % domainPortMaxLen < domainPortMaxLen - 1 then
        (cString (texts.getD (k / domainPortMaxLen - arrayIdx) [])).getD (k % domainPortMaxLen) nul
      else
        mem k) := by
  induction texts generalizing arrayIdx mem with
  | nil =>
      simp only [List.map_nil, storePeers, Prod.mk.injEq, true_and]
      funext k
      rw [if_neg]
      simp only [List.length_nil]
      omega
  | cons text texts ih =>
      obtain ⟨htext, hshort⟩ := List.forall_mem_cons.mp hshort
      rw [List.map_cons, storePeers]
      split
      · rename_i hfull
        simp only [Prod.mk.injEq, true_and]
        funext k
        rw [if_neg]
        omega
      · rename_i hroom
        rw [if_neg (Nat.not_le.mpr htext), ih hshort]
        simp only [Prod.mk.injEq, true_and]
        funext k
        -- The row `k / domainPortMaxLen` is a later one, this one, or none that is written.
        have hrow : k = domainPortMaxLen * (k / domainPortMaxLen) + k % domainPortMaxLen :=
          (Nat.div_add_mod ..).symm
        have hlt : k % domainPortMaxLen < domainPortMaxLen := Nat.mod_lt _ (by decide)
        unfold strncpy domainPortMaxLen domainMaxLen at *
        rcases Nat.lt_trichotomy (k / (128 + 6)) arrayIdx with hbefore | hthis | hafter
        · rw [if_neg (by omega), if_neg (by omega), if_neg (by omega)]
        · by_cases hlast : k % (128 + 6) < 128 + 6 - 1
          · rw [if_neg (by omega), if_pos (by omega), if_pos (by simp only [List.length_cons]; omega),
              hthis, Nat.sub_self, List.getD_cons_zero]
            congr 1
            omega
          · rw [if_neg (by omega), if_neg (by omega), if_neg (by omega)]
        · by_cases hwritten : k / (128 + 6) < min (arrayIdx + 1 + texts.length) maxPortNum ∧
              k % (128 + 6) < 128 + 6 - 1
          · rw [if_pos (by omega), if_pos (by simp only [List.length_cons]; omega),
              show k / (128 + 6) - arrayIdx = k / (128 + 6) - (arrayIdx + 1) + 1 by omega,
              List.getD_cons_succ]
          · rw [if_neg (by omega), if_neg (by omega),
              if_neg (by simp only [List.length_cons]; omega)]

theorem connectPeer_eq {mem : Nat → Char} {idx : Nat} {text : List Char}
    (hlen : text.length < domainPortMaxLen)
    (hmem : ∀ k < domainPortMaxLen, mem (idx * domainPortMaxLen + k) = (cString text).getD k nul) :
    connectPeer mem idx = cString text := by
  have hfits : (cString text).length < domainPortMaxLen :=
    Nat.lt_of_le_of_lt (length_cString_le text) hlen
  have hrow : (List.range domainPortMaxLen).map (fun k => mem (idx * domainPortMaxLen + k)) =
      cString text ++ List.replicate (domainPortMaxLen - (cString text).length) nul := by
    apply List.ext_getElem
    · simp only [List.length_map, List.length_range, List.length_append, List.length_replicate]
      omega
    · intro k hk _
      simp only [List.length_map, List.length_range] at hk
      simp only [List.getElem_map, List.getElem_range, hmem k hk, List.getElem_append,
        List.getElem_replicate, List.getD_eq_getElem?_getD]
      split
      · rename_i hin
        rw [List.getElem?_eq_getElem hin, Option.getD_some]
      · rename_i hout
        rw [List.getElem?_eq_none (Nat.le_of_not_lt hout), Option.getD_none]
  have hstop : (List.replicate (domainPortMaxLen - (cString text).length) nul).takeWhile
      (· ≠ nul) = [] := by
    rw [List.takeWhile_replicate]
    simp
  unfold connectPeer
  rw [hrow]
  nth_rewrite 1 [cString]
  rw [List.takeWhile_append_of_pos, hstop, List.append_nil]
  exact fun c hc => decide_eq_true (ne_nul_of_mem_cString hc)

theorem peersParser_strings {texts : List (List Char)}
    (hshort : ∀ text ∈ texts, text.length < domainPortMaxLen) (mem : Nat → Char) :
    peersParser (.array (texts.map .string)) mem = (.noError, fun k =>
      if k / domainPortMaxLen < min texts.length maxPortNum ∧
          k % domainPortMaxLen < domainPortMaxLen - 1 then
        (cString (texts.getD (k / domainPortMaxLen) [])).getD (k % domainPortMaxLen) nul
      else
        bzero mem ((maxPeerNum + 1) * domainPortMaxLen) k) := by
  rw [peersParser, storePeers_strings hshort]
  simp only [Nat.zero_le, true_and, Nat.zero_add, Nat.sub_zero]

/-- The leading strings stand in the table, the scan of the rows ends in it, and what follows it is
as it was. -/
structure PeersStored (texts : List (List Char)) (mem mem' : Nat → Char) : Prop where
  stored : ∀ idx < maxPeerNum, connectPeer mem' idx = cString (texts.getD idx [])
  terminated : connectPeer mem' maxPeerNum = []
  scan : ∃ idx ≤ maxPeerNum, connectPeer mem' idx = []
  frame : ∀ k, (maxPeerNum + 1) * domainPortMaxLen ≤ k → mem' k = mem k

/-- The string behind the table's capacity is empty or not there, and what would be written behind
the table stands there already. -/
def PeersFit (texts : List (List Char)) (mem : Nat → Char) : Prop :=
  cString (texts.getD maxPeerNum []) = [] ∧
    ∀ idx, maxPeerNum < idx → idx < min texts.length maxPortNum → ∀ k < domainPortMaxLen - 1,
      mem (idx * domainPortMaxLen + k) = (cString (texts.getD idx [])).getD k nul

theorem connectPeer_peersParser {texts : List (List Char)}
    (hshort : ∀ text ∈ texts, text.length < domainPortMaxLen) (mem : Nat → Char) {idx : Nat}
    (hidx : idx ≤ maxPeerNum) :
    connectPeer (peersParser (.array (texts.map .string)) mem).2 idx =
      cString (texts.getD idx []) := by
  have hlen : (texts.getD idx []).length < domainPortMaxLen := by
    by_cases hin : idx < texts.length
    · rw [List.getD_eq_getElem _ _ hin]
      exact hshort _ (List.getElem_mem hin)
    · rw [List.getD_eq_default _ _ (Nat.le_of_not_lt hin)]
      decide
  refine connectPeer_eq hlen fun k hk => ?_
  rw [peersParser_strings hshort]
  have hdiv : (idx * domainPortMaxLen + k) / domainPortMaxLen = idx := by
    rw [Nat.mul_comm, Nat.mul_add_div (by decide), Nat.div_eq_of_lt hk, Nat.add_zero]
  have hmod : (idx * domainPortMaxLen + k) % domainPortMaxLen = k := by
    rw [Nat.mul_comm, Nat.mul_add_mod, Nat.mod_eq_of_lt hk]
  have hcleared : bzero mem ((maxPeerNum + 1) * domainPortMaxLen) (idx * domainPortMaxLen + k) =
      nul := by
    unfold bzero domainPortMaxLen domainMaxLen maxPeerNum at *
    rw [if_pos (by omega)]
  simp only [hdiv, hmod, hcleared]
  split
  · rfl
  · rename_i hnot
    symm
    apply List.getD_eq_default
    have hfits := length_cString_le (texts.getD idx [])
    by_cases hin : idx < texts.length
    · have : idx < maxPortNum := Nat.lt_of_le_of_lt hidx (by decide)
      omega
    · rw [List.getD_eq_default _ _ (Nat.le_of_not_lt hin)] at hfits ⊢
      exact Nat.le_trans hfits (Nat.zero_le k)

/-- `peers_parser` keeps to its table exactly if the strings from the capacity of the table on make no
difference to the memory. -/
theorem peersParser_stored_iff (texts : List (List Char)) (mem : Nat → Char)
    (hshort : ∀ text ∈ texts, text.length < domainPortMaxLen) :
    ((peersParser (.array (texts.map .string)) mem).1 = .noError ∧
      PeersStored texts mem (peersParser (.array (texts.map .string)) mem).2) ↔
        PeersFit texts mem := by
  have hlast := connectPeer_peersParser hshort mem (Nat.le_refl maxPeerNum)
  have hvalue := peersParser_strings hshort mem
  constructor
  · rintro ⟨-, hstored⟩
    refine ⟨hlast.symm.trans hstored.terminated, fun idx hbehind hidx k hk => ?_⟩
    have hframe := hstored.frame (idx * domainPortMaxLen + k)
    rw [hvalue] at hframe
    have hdiv : (idx * domainPortMaxLen + k) / domainPortMaxLen = idx := by
      rw [Nat.mul_comm, Nat.mul_add_div (by decide), Nat.div_eq_of_lt (Nat.lt_of_lt_pred hk),
        Nat.add_zero]
    have hmod : (idx * domainPortMaxLen + k) % domainPortMaxLen = k := by
      rw [Nat.mul_comm, Nat.mul_add_mod, Nat.mod_eq_of_lt (Nat.lt_of_lt_pred hk)]
    simp only [hdiv, hmod, hidx, hk, and_self, if_true] at hframe
    refine (hframe ?_).symm
    have := Nat.mul_le_mul_right domainPortMaxLen (Nat.succ_le_of_lt hbehind)
    exact Nat.le_add_right_of_le this
  · rintro ⟨hempty, hsame⟩
    refine ⟨by rw [hvalue], ?_⟩
    have hterminated : connectPeer (peersParser (.array (texts.map .string)) mem).2 maxPeerNum = [] :=
      hlast.trans hempty
    refine ⟨fun idx hidx => connectPeer_peersParser hshort mem hidx.le, hterminated,
      ⟨maxPeerNum, Nat.le_refl _, hterminated⟩, fun k hk => ?_⟩
    rw [hvalue]
    dsimp only
    split
    · rename_i hwritten
      have hbehind : maxPeerNum < k / domainPortMaxLen :=
        (Nat.le_div_iff_mul_le (by decide)).mpr hk
      rw [← hsame _ hbehind hwritten.1 _ hwritten.2, Nat.mul_comm, Nat.div_add_mod]
    · exact if_neg (Nat.not_lt.mpr hk)

theorem peersFit_of_length_le {texts : List (List Char)} (hlen : texts.length ≤ maxPeerNum)
    (mem : Nat → Char) : PeersFit texts mem := by
  constructor
  · rw [List.getD_eq_default _ _ hlen]
    rfl
  · intro idx hbehind hidx
    omega

theorem peersParser_stored_two : PeersStored [['a'], ['b']] (fun _ => 'z')
    (peersParser (.array ([['a'], ['b']].map .string)) (fun _ => 'z')).2 :=
  ((peersParser_stored_iff [['a'], ['b']] (fun _ => 'z') (by decide)).mpr
    (peersFit_of_length_le (by decide) _)).2

/-- Twenty-two one-letter names: the last row of the table is not empty, and the character behind the
table, where `dns_server` starts, is overwritten. -/
theorem not_peersStored_twentyTwo :
    (peersParser (.array ((List.replicate 22 ['a']).map .string)) (fun _ => nul)).1 = .noError ∧
      connectPeer (peersParser (.array ((List.replicate 22 ['a']).map .string))
        (fun _ => nul)).2 maxPeerNum = ['a'] ∧
      (peersParser (.array ((List.replicate 22 ['a']).map .string)) (fun _ => nul)).2
        ((maxPeerNum + 1) * domainPortMaxLen) = 'a' := by
  decide +kernel

/-! ### Reloading

A table of the rules is filled by the members of the file with its name, and by no others.
-/

theorem parseSection_fst (name : List Char) (value : Json) (rules rules' : Rules) :
    (parseSection name value rules).1 = (parseSection name value rules').1 := by
  unfold parseSection
  split
  · rfl
  · split <;> rfl

theorem parseSections_cons (name : List Char) (value : Json) (members : List (List Char × Json))
    (rules : Rules) : parseSections ((name, value) :: members) rules =
      if (parseSection name value rules).1 = .noError then
        parseSections members (parseSection name value rules).2
      else
        parseSection name value rules := by
  rw [parseSections]
  split
  · rename_i hnext
    rw [hnext, if_pos rfl]
  · rename_i hfailed
    rw [if_neg]
    exact fun hok => hfailed _ (Prod.ext hok rfl)

/-- One of the two tables, and the name of its section. -/
structure Table (τ : Type) where
  key : List Char
  get : Rules → τ
  present : ∀ name value rules rules', cString name = key →
    get (parseSection name value rules).2 = get (parseSection name value rules').2
  absent : ∀ name value rules, cString name ≠ key →
    get (parseSection name value rules).2 = get rules

def Table.entrances : Table (List EntranceRule) where
  key := entranceRulesKey
  get := Rules.entrances
  present := by
    intro name value rules rules' hname
    simp only [parseSection, if_pos hname]
  absent := by
    intro name value rules hname
    rw [parseSection, if_neg hname]
    split <;> rfl

def Table.forwards : Table (List ForwardRule) where
  key := forwardRulesKey
  get := Rules.forwards
  present := by
    intro name value rules rules' hname
    have hother : cString name ≠ entranceRulesKey := by
      rw [hname]
      decide
    simp only [parseSection, if_neg hother, if_pos hname]
  absent := by
    intro name value rules hname
    unfold parseSection
    split
    · rfl
    · rfl

def Table.Given {τ : Type} (table : Table τ) (members : List (List Char × Json)) : Prop :=
  ∃ member ∈ members, cString member.1 = table.key

theorem Table.get_parseSections_eq_iff {τ : Type} (table : Table τ)
    {members : List (List Char × Json)} {rules : Rules}
    (hok : (parseSections members rules).1 = .noError) (rules' : Rules) :
    table.get (parseSections members rules).2 = table.get (parseSections members rules').2 ↔
      table.Given members ∨ table.get rules = table.get rules' := by
  induction members generalizing rules rules' with
  | nil => simp [parseSections, Given]
  | cons member members ih =>
      obtain ⟨name, value⟩ := member
      have hfirst := parseSection_fst name value rules rules'
      rw [parseSections_cons] at hok ⊢
      rw [parseSections_cons, ← hfirst]
      -- Both runs come to the rest of the members, since the first one does.
      have hgoes : (parseSection name value rules).1 = .noError := by
        by_contra hfailed
        rw [if_neg hfailed] at hok
        exact hfailed hok
      rw [if_pos hgoes] at hok ⊢
      rw [if_pos hgoes, ih hok]
      by_cases hname : cString name = table.key
      · simp only [table.present name value rules rules' hname, or_true, true_iff]
        exact .inl ⟨(name, value), by simp, hname⟩
      · rw [table.absent name value rules hname, table.absent name value rules' hname]
        refine or_congr_left ?_
        simp [Given, hname]

/-- With success a reload leaves the rules of a restart, otherwise those before the call. -/
def LikeRestart (nodeId : U32) (s : ReloadState) (file : FileContent) : Prop :=
  ((reloadConfigFile file s).1 = .noError →
    loadConfigFile nodeId file = some (reloadConfigFile file s).2.rules) ∧
      ((reloadConfigFile file s).1 ≠ .noError → (reloadConfigFile file s).2.rules = s.rules)

/-- After a successful reload a restart succeeds too, and a table without a section was empty. -/
def Determined (nodeId : U32) (s : ReloadState) (file : FileContent) : Prop :=
  (reloadConfigFile file s).1 = .noError →
    (loadConfigFile nodeId file).isSome ∧ ∃ members, file = .json (.object members) ∧
      (Table.entrances.Given members ∨ s.temp.entrances = clearTable .zero) ∧
        (Table.forwards.Given members ∨ s.temp.forwards = clearTable .zero)

theorem rules_loadSettings (members : List (List Char × Json)) (config : GlobalConfig) :
    (loadSettings members config).2.rules = config.rules := by
  induction members generalizing config with
  | nil => rfl
  | cons member members ih =>
      unfold loadSettings
      split
      · split
        · rw [ih]
        · rfl
      · split
        · split
          · rw [ih]
          · rfl
        · rw [ih]

theorem parseSections_of_loadConfigFile {nodeId : U32} {members : List (List Char × Json)}
    {rules : Rules} (hload : loadConfigFile nodeId (.json (.object members)) = some rules) :
    (parseSections members .clear).2 = rules := by
  simp only [loadConfigFile, FileContent.read] at hload
  split at hload
  · rename_i config hsettings
    have hclear : config.rules = .clear := by
      have hrules := rules_loadSettings members (globalConfigDefaults nodeId)
      rwa [hsettings] at hrules
    split at hload
    · cases hload
    · split at hload
      · rename_i hparse
        rw [← hclear, hparse]
        exact Option.some.inj hload
      · cases hload
  · cases hload

theorem reloadConfigFile_json (obj : Json) (s : ReloadState) :
    reloadConfigFile (.json obj) s =
      if (parseRules obj s.temp).1 = .noError then
        (.noError, { rules := (parseRules obj s.temp).2, temp := (parseRules obj s.temp).2 })
      else
        ((parseRules obj s.temp).1, { s with temp := (parseRules obj s.temp).2 }) := by
  simp only [reloadConfigFile, FileContent.read]
  split
  · rename_i hparse
    rw [hparse, if_pos rfl]
  · rename_i ret temp hfailed hparse
    rw [hparse, if_neg hfailed]

theorem rules_reloadConfigFile_of_error {file : FileContent} {s : ReloadState}
    (hfailed : (reloadConfigFile file s).1 ≠ .noError) :
    (reloadConfigFile file s).2.rules = s.rules := by
  cases file with
  | missing | tooLarge | noMemory | unreadable | malformed => rfl
  | json obj =>
      rw [reloadConfigFile_json] at hfailed ⊢
      split
      · rename_i hok
        rw [if_pos hok] at hfailed
        exact absurd rfl hfailed
      · rfl

theorem parseSections_of_reloadConfigFile {file : FileContent} {s : ReloadState}
    (hok : (reloadConfigFile file s).1 = .noError) :
    ∃ members, file = .json (.object members) ∧ (parseSections members s.temp).1 = .noError ∧
      (reloadConfigFile file s).2.rules = (parseSections members s.temp).2 := by
  cases file with
  | missing | tooLarge | noMemory | unreadable | malformed => cases hok
  | json obj =>
      have hparse : (parseRules obj s.temp).1 = .noError := by
        by_contra hfailed
        rw [reloadConfigFile_json, if_neg hfailed] at hok
        exact hfailed hok
      cases obj with
      | object members =>
          refine ⟨members, rfl, hparse, ?_⟩
          rw [reloadConfigFile_json, if_pos hparse]
          rfl
      | array | integer | double | string | boolean | null => cases hparse

theorem likeRestart_iff (nodeId : U32) (s : ReloadState) (file : FileContent) :
    LikeRestart nodeId s file ↔ Determined nodeId s file := by
  by_cases hok : (reloadConfigFile file s).1 = .noError
  · obtain ⟨members, rfl, hparse, hrules⟩ := parseSections_of_reloadConfigFile hok
    have hentrances := Table.entrances.get_parseSections_eq_iff hparse .clear
    have hforwards := Table.forwards.get_parseSections_eq_iff hparse .clear
    have hclear : (parseSections members s.temp).2 = (parseSections members .clear).2 ↔
        (Table.entrances.Given members ∨ s.temp.entrances = clearTable .zero) ∧
          (Table.forwards.Given members ∨ s.temp.forwards = clearTable .zero) := by
      exact Rules.ext_iff.trans (and_congr hentrances hforwards)
    constructor
    · intro hlike _
      have hload := hlike.1 hok
      refine ⟨by rw [hload]; rfl, members, rfl, hclear.mp ?_⟩
      rw [parseSections_of_loadConfigFile hload, hrules]
    · intro hdetermined
      obtain ⟨hsome, members', hmembers, htables⟩ := hdetermined hok
      obtain rfl : members = members' := by simpa using hmembers
      refine ⟨fun _ => ?_, fun hfailed => absurd hok hfailed⟩
      obtain ⟨rules, hload⟩ := Option.isSome_iff_exists.mp hsome
      rw [hload, hrules, hclear.mpr htables, parseSections_of_loadConfigFile hload]
  · constructor
    · exact fun _ h => absurd h hok
    · exact fun _ => ⟨fun h => absurd h hok, rules_reloadConfigFile_of_error⟩

/-- After any history of reloads, the next one depends on the file alone exactly if it fails, or the
static tables of the sections that the file does not have are empty. -/
theorem reload_likeRestart_iff (nodeId : U32) (rules : Rules) (history : List FileContent)
    (file : FileContent) :
    LikeRestart nodeId (reloads rules history) file ↔
      Determined nodeId (reloads rules history) file :=
  likeRestart_iff ..

def oneEntrance : FileContent :=
  .json (.object [(entranceRulesKey, .array [.object
    [("listen_addr".toList, .string "0.0.0.0".toList), ("listen_port".toList, .integer 80)]])])

/-- A file without rules, after one with an entrance: the entrance stays. -/
theorem not_likeRestart_missingSection :
    ¬LikeRestart 1 (reloads .clear [oneEntrance]) (.json (.object [])) := by
  have hreload : (reloadConfigFile (.json (.object [])) (reloads .clear [oneEntrance])).1 = .noError ∧
      (reloadConfigFile (.json (.object [])) (reloads .clear [oneEntrance])).2.rules ≠ .clear ∧
      loadConfigFile 1 (.json (.object [])) = some .clear := by
    decide +kernel
  intro hlike
  have hload := hlike.1 hreload.1
  rw [hreload.2.2] at hload
  exact hreload.2.1 (Option.some.inj hload).symm

end Liteflow
