import Liteflow.Peers

/-!
# The configuration file

`config.c`: the parsers of its entries, `load_config_file` and `reload_config_file`. A C string is the
list of its characters. What `json_parse_ex` makes of the file, or why it could not be read, is given.

* The two rule tables are lists of `MAX_PORT_NUM + 1` rows, all rows behind the last rule being zero.
* `connect_peers` stands in the middle of `g_config`, and `peers_parser` fills it by moving a pointer.
  It works on the memory from the start of the table on, as a function of the offset.
* `load_config_file` aborts on settings and rules that cannot be parsed (`assert(0)`).
* A `Config` carries what the checks at the end of `load_config_file` make sure of.
-/

namespace Liteflow

def maxPortNum : Nat := 100
def maxPeerNum : Nat := 20
def passwordLen : Nat := 32
def addressMaxLen : Nat := 65

inductive ConfigError where
  | noError
  | fileNotFound
  | notEnoughResources
  | parseFailed
deriving DecidableEq, Repr

/-! ### JSON -/

inductive Json where
  | object (values : List (List Char × Json))
  | array (values : List Json)
  | integer (value : Int)
  | double (value : Rat)
  | string (value : List Char)
  | boolean (value : Bool)
  | null

inductive JsonType where
  | object
  | array
  | integer
  | double
  | string
  | boolean
  | null
deriving DecidableEq, Repr

def Json.type : Json → JsonType
  | object _ => .object
  | array _ => .array
  | integer _ => .integer
  | double _ => .double
  | string _ => .string
  | boolean _ => .boolean
  | null => .null

def nul : Char := Char.ofNat 0

/-- What the string functions see of a text, which may contain zeros. -/
def cString (text : List Char) : List Char :=
  text.takeWhile (· ≠ nul)

/-! ### Entries -/

/-- `parser_entry`, for a base of type `β`; `parse` is called with a value of the type. -/
structure ParserEntry (β : Type) where
  key : List Char
  type : JsonType
  parse : Json → β → ConfigError × β

section Entries

variable {β : Type}

/-- `normal_parser` for an integer of `w` bits. -/
def integerEntry (w : Nat) (key : String) (set : β → BitVec w → β) : ParserEntry β where
  key := key.toList
  type := .integer
  parse
    | .integer value, base => (.noError, set base (BitVec.ofInt w value))
    | _, base => (.noError, base)

def doubleEntry (key : String) (set : β → Rat → β) : ParserEntry β where
  key := key.toList
  type := .double
  parse
    | .double value, base => (.noError, set base value)
    | _, base => (.noError, base)

def stringEntry (key : String) (maxlen : Nat) (set : β → List Char → β) : ParserEntry β where
  key := key.toList
  type := .string
  parse
    | .string value, base =>
        if maxlen ≤ value.length then (.parseFailed, base) else (.noError, set base (cString value))
    | _, base => (.noError, base)

inductive Protocol where
  | tcp
  | udp
deriving DecidableEq, Repr

/-- `protocol_parser`, with `strcasecmp`. -/
def protocolEntry (key : String) (set : β → Protocol → β) : ParserEntry β where
  key := key.toList
  type := .string
  parse
    | .string value, base =>
        if (cString value).map Char.toLower = "tcp".toList then (.noError, set base .tcp)
        else if (cString value).map Char.toLower = "udp".toList then (.noError, set base .udp)
        else (.parseFailed, base)
    | _, base => (.noError, base)

/-- The inner loop of `parse_entries_from_jobject`. -/
def parseMember (name : List Char) (value : Json) : List (ParserEntry β) → β → ConfigError × β
  | [], base => (.noError, base)
  | entry :: entries, base =>
      if entry.key ≠ cString name then
        parseMember name value entries base
      else if value.type ≠ entry.type then
        (.parseFailed, base)
      else
        match entry.parse value base with
        | (.noError, base) => parseMember name value entries base
        | failed => failed

/-- The members of the object of `parse_entries_from_jobject`. -/
def parseMembers (entries : List (ParserEntry β)) :
    List (List Char × Json) → β → ConfigError × β
  | [], base => (.noError, base)
  | (name, value) :: members, base =>
      match parseMember name value entries base with
      | (.noError, base) => parseMembers entries members base
      | failed => failed

def parseEntriesFromJobject (jobject : Json) (entries : List (ParserEntry β)) (base : β) :
    ConfigError × β :=
  match jobject with
  | .object members => parseMembers entries members base
  | _ => (.parseFailed, base)

end Entries

/-! ### The list of peers -/

/-- `strncpy(mem + pos, text, count)`. -/
def strncpy (mem : Nat → Char) (pos : Nat) (text : List Char) (count : Nat) : Nat → Char :=
  fun k => if pos ≤ k ∧ k < pos + count then (cString text).getD (k - pos) nul else mem k

/-- `bzero(mem, count)`. -/
def bzero (mem : Nat → Char) (count : Nat) : Nat → Char :=
  fun k => if k < count then nul else mem k

/-- The loop of `peers_parser`. -/
def storePeers : Nat → List Json → (Nat → Char) → ConfigError × (Nat → Char)
  | _, [], mem => (.noError, mem)
  | arrayIdx, item :: rest, mem =>
      if maxPortNum ≤ arrayIdx then
        (.noError, mem)
      else
        match item with
        | .string text =>
            if domainPortMaxLen ≤ text.length then
              (.parseFailed, mem)
            else
              storePeers (arrayIdx + 1) rest
                (strncpy mem (arrayIdx * domainPortMaxLen) text (domainPortMaxLen - 1))
        | _ => (.parseFailed, mem)

/-- `peers_parser`; `mem` is the memory from `addr` on. -/
def peersParser (list : Json) (mem : Nat → Char) : ConfigError × (Nat → Char) :=
  let cleared := bzero mem ((maxPeerNum + 1) * domainPortMaxLen)
  match list with
  | .array values => storePeers 0 values cleared
  | _ => (.parseFailed, cleared)

/-- The string in a row of `connect_peers`. -/
def connectPeer (mem : Nat → Char) (idx : Nat) : List Char :=
  cString ((List.range domainPortMaxLen).map (fun k => mem (idx * domainPortMaxLen + k)))

/-! ### Settings -/

/-- `service_settings_t`. `peers` is the memory from `connect_peers` on, and `peersRows` the number of
rows that have been written there. -/
structure ServiceSettings where
  debugLog : U32
  perfLog : U32
  nodeId : U32
  listenAddr : List Char
  listenPort : U32
  maxIncomingPeers : U32
  peers : Nat → Char
  peersRows : Nat
  dnsServer : List Char
  preferIpv6 : U32
  udpTimeout : U32
  tcpNodelay : U32
  tcpFastopen : U32
  tcpFastopenConnect : U32

structure TransportSettings where
  password : List Char
  tokenExpire : U32
  offlineTimeout : U32
  bufferSize : U32
  transmitRateInit : U32
  transmitRateMax : U32
  transmitRateMin : U32
  fecDecode : U32
  fecGroupSize : U32
  maxRtt : U32
  minRtt : U32
  rtoRatio : Rat
  mtu : U32
  ackSize : U32

/-- The number of rows that `peers_parser` writes. -/
def writtenRows : Json → Nat
  | .array values => min values.length maxPortNum
  | _ => 0

def peersEntry (key : String) : ParserEntry ServiceSettings where
  key := key.toList
  type := .array
  parse list base :=
    let (ret, peers) := peersParser list base.peers
    (ret, { base with peers := peers, peersRows := max base.peersRows (writtenRows list) })

def staticServiceVarsEntries : List (ParserEntry ServiceSettings) :=
  [integerEntry 32 "debug_log" fun s v => { s with debugLog := v },
    integerEntry 32 "perf_log" fun s v => { s with perfLog := v },
    integerEntry 32 "node_id" fun s v => { s with nodeId := v },
    stringEntry "listen_addr" addressMaxLen fun s v => { s with listenAddr := v },
    integerEntry 32 "listen_port" fun s v => { s with listenPort := v },
    integerEntry 32 "max_incoming_peers" fun s v => { s with maxIncomingPeers := v },
    peersEntry "connect_peers",
    stringEntry "dns_server" addressMaxLen fun s v => { s with dnsServer := v },
    integerEntry 32 "prefer_ipv6" fun s v => { s with preferIpv6 := v },
    integerEntry 32 "udp_timeout" fun s v => { s with udpTimeout := v },
    integerEntry 32 "tcp_nodelay" fun s v => { s with tcpNodelay := v },
    integerEntry 32 "tcp_fastopen" fun s v => { s with tcpFastopen := v },
    integerEntry 32 "tcp_fastopen_connect" fun s v => { s with tcpFastopenConnect := v }]

def staticTransportVarsEntries : List (ParserEntry TransportSettings) :=
  [stringEntry "password" passwordLen fun t v => { t with password := v },
    integerEntry 32 "token_expire" fun t v => { t with tokenExpire := v },
    integerEntry 32 "offline_timeout" fun t v => { t with offlineTimeout := v },
    integerEntry 32 "buffer_size" fun t v => { t with bufferSize := v },
    integerEntry 32 "transmit_rate_init" fun t v => { t with transmitRateInit := v },
    integerEntry 32 "transmit_rate_max" fun t v => { t with transmitRateMax := v },
    integerEntry 32 "transmit_rate_min" fun t v => { t with transmitRateMin := v },
    integerEntry 32 "fec_decode" fun t v => { t with fecDecode := v },
    integerEntry 32 "fec_group_size" fun t v => { t with fecGroupSize := v },
    integerEntry 32 "max_rtt" fun t v => { t with maxRtt := v },
    integerEntry 32 "min_rtt" fun t v => { t with minRtt := v },
    doubleEntry "rto_ratio" fun t v => { t with rtoRatio := v },
    integerEntry 32 "mtu" fun t v => { t with mtu := v },
    integerEntry 32 "ack_size" fun t v => { t with ackSize := v }]

/-! ### Rules -/

structure EntranceRule where
  tunnelId : U16
  nodeId : U16
  listenAddr : List Char
  listenPort : U16
  protocol : Protocol
deriving DecidableEq, Repr

structure ForwardRule where
  tunnelId : U16
  nodeId : U16
  destinationAddr : List Char
  destinationPort : U16
  protocol : Protocol
deriving DecidableEq, Repr

/-- The rows after `bzero`. -/
def EntranceRule.zero : EntranceRule := ⟨0, 0, [], 0, .tcp⟩
def ForwardRule.zero : ForwardRule := ⟨0, 0, [], 0, .tcp⟩

def dynamicEntranceRulesEntries : List (ParserEntry EntranceRule) :=
  [integerEntry 16 "tunnel_id" fun r v => { r with tunnelId := v },
    integerEntry 16 "node_id" fun r v => { r with nodeId := v },
    stringEntry "listen_addr" addressMaxLen fun r v => { r with listenAddr := v },
    integerEntry 16 "listen_port" fun r v => { r with listenPort := v },
    protocolEntry "protocol" fun r v => { r with protocol := v }]

def dynamicForwardRulesEntries : List (ParserEntry ForwardRule) :=
  [integerEntry 16 "tunnel_id" fun r v => { r with tunnelId := v },
    integerEntry 16 "node_id" fun r v => { r with nodeId := v },
    stringEntry "destination_addr" addressMaxLen fun r v => { r with destinationAddr := v },
    integerEntry 16 "destination_port" fun r v => { r with destinationPort := v },
    protocolEntry "protocol" fun r v => { r with protocol := v }]

section Tables

variable {ρ : Type}

/-- The loop of `parse_rules_array`; every row it comes to has been cleared. -/
def parseRows (entries : List (ParserEntry ρ)) (zero : ρ) :
    Nat → List Json → List ρ → ConfigError × List ρ
  | _, [], rules => (.noError, rules)
  | arrayIdx, item :: rest, rules =>
      if maxPortNum ≤ arrayIdx then
        (.noError, rules)
      else
        match parseEntriesFromJobject item entries zero with
        | (.noError, row) => parseRows entries zero (arrayIdx + 1) rest (rules.set arrayIdx row)
        | (ret, row) => (ret, rules.set arrayIdx row)

def clearTable (zero : ρ) : List ρ :=
  List.replicate (maxPortNum + 1) zero

def parseRulesArray (list : Json) (entries : List (ParserEntry ρ)) (zero : ρ) :
    ConfigError × List ρ :=
  match list with
  | .array values => parseRows entries zero 0 values (clearTable zero)
  | _ => (.parseFailed, clearTable zero)

end Tables

structure Rules where
  entrances : List EntranceRule
  forwards : List ForwardRule
deriving DecidableEq, Repr

attribute [ext] Rules

def Rules.clear : Rules where
  entrances := clearTable .zero
  forwards := clearTable .zero

def entranceRulesKey : List Char := "entrance_rules".toList
def forwardRulesKey : List Char := "forward_rules".toList

/-- One turn of the loop of `parse_rules`. -/
def parseSection (name : List Char) (value : Json) (rules : Rules) : ConfigError × Rules :=
  if cString name = entranceRulesKey then
    let (ret, entrances) := parseRulesArray value dynamicEntranceRulesEntries .zero
    (ret, { rules with entrances := entrances })
  else if cString name = forwardRulesKey then
    let (ret, forwards) := parseRulesArray value dynamicForwardRulesEntries .zero
    (ret, { rules with forwards := forwards })
  else
    (.noError, rules)

def parseSections : List (List Char × Json) → Rules → ConfigError × Rules
  | [], rules => (.noError, rules)
  | (name, value) :: members, rules =>
      match parseSection name value rules with
      | (.noError, rules) => parseSections members rules
      | failed => failed

def parseRules (obj : Json) (rules : Rules) : ConfigError × Rules :=
  match obj with
  | .object members => parseSections members rules
  | _ => (.parseFailed, rules)

/-! ### Files -/

/-- What is found under the name of the configuration file. -/
inductive FileContent where
  | missing
  | tooLarge
  | noMemory
  | unreadable
  | malformed
  | json (obj : Json)

def FileContent.read : FileContent → Except ConfigError Json
  | missing => .error .fileNotFound
  | tooLarge => .error .parseFailed
  | noMemory => .error .notEnoughResources
  | unreadable => .error .fileNotFound
  | malformed => .error .parseFailed
  | json obj => .ok obj

structure GlobalConfig where
  service : ServiceSettings
  transport : TransportSettings
  rules : Rules

/-- `global_config_init`; `nodeId` is the random one. -/
def globalConfigDefaults (nodeId : U32) : GlobalConfig where
  service :=
    { debugLog := 0
      perfLog := 0
      nodeId := nodeId
      listenAddr := []
      listenPort := 0
      maxIncomingPeers := 0
      peers := fun _ => nul
      peersRows := 0
      dnsServer := []
      preferIpv6 := 0
      udpTimeout := 120
      tcpNodelay := 0
      tcpFastopen := 0
      tcpFastopenConnect := 0 }
  transport :=
    { password := []
      tokenExpire := 120
      offlineTimeout := 120
      bufferSize := 10 * 1024 * 1024
      transmitRateInit := 100 * 1024
      transmitRateMax := 100 * 1024 * 1024
      transmitRateMin := 10 * 1024
      fecDecode := 0
      fecGroupSize := 0
      maxRtt := 1000000
      minRtt := 50000
      rtoRatio := 3 / 2
      mtu := BitVec.ofNat 32 litedtMtuMax
      ackSize := 100 }
  rules := .clear

/-- The loop of `load_config_file` over the settings. -/
def loadSettings : List (List Char × Json) → GlobalConfig → ConfigError × GlobalConfig
  | [], config => (.noError, config)
  | (name, value) :: members, config =>
      if cString name = "service".toList then
        match parseEntriesFromJobject value staticServiceVarsEntries config.service with
        | (.noError, service) => loadSettings members { config with service := service }
        | (ret, service) => (ret, { config with service := service })
      else if cString name = "transport".toList then
        match parseEntriesFromJobject value staticTransportVarsEntries config.transport with
        | (.noError, transport) => loadSettings members { config with transport := transport }
        | (ret, transport) => (ret, { config with transport := transport })
      else
        loadSettings members config

/-- The rules after `load_config_file`, from the defaults; `none` if it returns an error, aborts, or
has written outside of `connect_peers`. -/
def loadConfigFile (nodeId : U32) (file : FileContent) : Option Rules :=
  match file.read with
  | .error _ => none
  | .ok (.object members) =>
      match loadSettings members (globalConfigDefaults nodeId) with
      | (.noError, config) =>
          if maxPeerNum + 1 < config.service.peersRows then
            none
          else
            match parseSections members config.rules with
            | (.noError, rules) => some rules
            | _ => none
      | _ => none
  | .ok _ => none

/-! ### The transport settings -/

namespace TransportSettings

/-- "Post configuration check". -/
def postCheck (t : TransportSettings) : TransportSettings :=
  { t with
    fecGroupSize := if 127 < t.fecGroupSize then 127 else t.fecGroupSize
    mtu :=
      let capped := if litedtMtuMax < t.mtu.toNat then BitVec.ofNat 32 litedtMtuMax else t.mtu
      if capped.toNat ≤ litedtMaxHeader then BitVec.ofNat 32 (litedtMaxHeader + 1) else capped }

theorem fecGroupSize_postCheck (t : TransportSettings) :
    t.postCheck.fecGroupSize.toNat ≤ 127 := by
  unfold postCheck
  dsimp only
  split
  · exact le_rfl
  · rename_i hle
    exact BitVec.not_lt.mp hle

theorem mtu_postCheck (t : TransportSettings) :
    t.postCheck.mtu.toNat ≤ litedtMtuMax ∧ litedtMaxHeader < t.postCheck.mtu.toNat := by
  unfold postCheck
  dsimp only
  split
  · decide
  · rename_i hcap
    split
    · decide
    · rename_i hlow
      exact ⟨not_lt.mp hcap, not_le.mp hlow⟩

/-- The settings as a host reads them. `rto` multiplies by `rto_ratio`, and `generateToken` hashes
with `password`. -/
def config (t : TransportSettings) (rto : U32 → Int) (generateToken : U16 → List Byte → Token) :
    Config where
  tokenExpire := t.tokenExpire
  offlineTimeout := t.offlineTimeout
  bufferSize := t.bufferSize
  transmitRateInit := t.transmitRateInit
  transmitRateMax := t.transmitRateMax
  transmitRateMin := t.transmitRateMin
  fecDecode := t.fecDecode
  fecGroupSize := t.postCheck.fecGroupSize
  maxRtt := t.maxRtt
  minRtt := t.minRtt
  mtu := t.postCheck.mtu
  ackSize := t.ackSize
  rto := rto
  generateToken := generateToken
  fecGroupSize_le := fecGroupSize_postCheck t
  mtu_le := (mtu_postCheck t).1
  lt_mtu := (mtu_postCheck t).2

end TransportSettings

/-- The transport settings after `load_config_file`, from the defaults; `none` as for the rules, so
also for a file it accepts whose `connect_peers` runs over its table into the settings behind it. -/
def loadTransport (nodeId : U32) (file : FileContent) : Option TransportSettings :=
  match file.read with
  | .error _ => none
  | .ok (.object members) =>
      match loadSettings members (globalConfigDefaults nodeId) with
      | (.noError, config) =>
          if maxPeerNum + 1 < config.service.peersRows then
            none
          else
            match parseSections members config.rules with
            | (.noError, _) => some config.transport.postCheck
            | _ => none
      | _ => none
  | .ok _ => none

/-- The rules of `g_config`, and the static tables of `reload_config_file`. -/
structure ReloadState where
  rules : Rules
  temp : Rules
deriving DecidableEq, Repr

def reloadConfigFile (file : FileContent) (s : ReloadState) : ConfigError × ReloadState :=
  match file.read with
  | .error ret => (ret, s)
  | .ok obj =>
      match parseRules obj s.temp with
      | (.noError, temp) => (.noError, { rules := temp, temp := temp })
      | (ret, temp) => (ret, { s with temp := temp })

/-- The state after a number of reloads, from the rules the program has started with. -/
def reloads (rules : Rules) (history : List FileContent) : ReloadState :=
  history.foldl (fun s file => (reloadConfigFile file s).2) { rules := rules, temp := .clear }

end Liteflow
