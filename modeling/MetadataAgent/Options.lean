import MetadataAgent.Bytes
import MetadataAgent.Lib.Histories
import MetadataAgent.Lib.OrderedMap
import MetadataAgent.Lib.Stopping

/-! # The configuration

The options of the agent are set from a file and then from the command line, whose settings are
put together to a text of the same form. A setting of an unknown option is reported, and one that
does not convert to the type of its option leaves it as it is. The parsers of YAML and of the
command line are outside. -/
namespace MetadataAgent.Options
open Lib
set_option autoImplicit false

/-! ## Options -/

/-- The value of a member of `Configuration`, with its type. -/
inductive Setting where
  | text (value : Bytes)
  | int (value : ℤ)
  | bool (value : Bool)
  deriving DecidableEq

/-- The options with their defaults; the version of the agent comes from the build. -/
def defaultOptions (agentVersion : Bytes) : List (Bytes × Setting) := [
  (lit "ProjectId", .text []),
  (lit "CredentialsFile", .text []),
  (lit "MetadataApiNumThreads", .int 3),
  (lit "MetadataApiPort", .int 8000),
  (lit "MetadataApiBindAddress", .text (lit "0.0.0.0")),
  (lit "MetadataApiResourceTypeSeparator", .text (lit ".")),
  (lit "MetadataReporterIntervalSeconds", .int 60),
  (lit "MetadataReporterPurgeDeleted", .bool false),
  (lit "MetadataReporterUserAgent", .text (lit "metadata-agent/" ++ agentVersion)),
  (lit "MetadataIngestionEndpointFormat", .text
    (lit "https://stackdriver.googleapis.com/v1beta2/projects/" ++
      lit "\x7b\x7bproject_id\x7d\x7d/resourceMetadata:batchUpdate")),
  (lit "MetadataIngestionRequestSizeLimitBytes", .int (8 * 1024 * 1024)),
  (lit "MetadataIngestionRequestSizeLimitCount", .int 1000),
  (lit "MetadataIngestionRawContentVersion", .text (lit "0.1")),
  (lit "InstanceUpdaterIntervalSeconds", .int (60 * 60)),
  (lit "InstanceResourceType", .text []),
  (lit "DockerUpdaterIntervalSeconds", .int 0),
  (lit "DockerEndpointHost", .text (lit "unix://%2Fvar%2Frun%2Fdocker.sock/")),
  (lit "DockerApiVersion", .text (lit "1.23")),
  (lit "DockerContainerFilter", .text (lit "limit=30")),
  (lit "KubernetesUpdaterIntervalSeconds", .int 0),
  (lit "KubernetesUpdaterWatchConnectionRetries", .int 0),
  (lit "KubernetesUpdaterWatchMaxConnectionFailures", .int 15),
  (lit "KubernetesUpdaterWatchReconnectIntervalSeconds", .int 3600),
  (lit "KubernetesUpdaterWatchReconnectMaxSilenceSeconds", .int 300),
  (lit "KubernetesEndpointHost", .text (lit "https://kubernetes.default.svc")),
  (lit "KubernetesPodLabelSelector", .text []),
  (lit "KubernetesClusterName", .text []),
  (lit "KubernetesClusterLocation", .text []),
  (lit "KubernetesNodeName", .text []),
  (lit "KubernetesUseWatch", .bool false),
  (lit "KubernetesClusterLevelMetadata", .bool false),
  (lit "KubernetesServiceMetadata", .bool true),
  (lit "InstanceId", .text []),
  (lit "InstanceZone", .text []),
  (lit "HealthCheckMaxDataAgeSeconds", .int (5 * 60))]

/-- `YAML::Load` and the conversions of a node. A text that is not YAML has no pairs to iterate
over; a node that does not convert has no value. -/
structure Yaml where
  Node : Type
  load : Bytes → Option (List (Node × Node))
  asString : Node → Option Bytes
  asInt : Node → Option ℤ
  asBool : Node → Option Bool

/-- `YAML::ParserException`, or the bad conversion of a key. -/
inductive YamlException where
  | parser
  | badConversion
  deriving DecidableEq

/-- What the node is for a member of this type. -/
def Setting.convert (yaml : Yaml) (node : yaml.Node) : Setting → Option Setting
  | .text _ => (yaml.asString node).map .text
  | .int _ => (yaml.asInt node).map .int
  | .bool _ => (yaml.asBool node).map .bool

/-- `OptionDef::Set`: `value.as<T>(var_)`. -/
def Setting.set (yaml : Yaml) (node : yaml.Node) (setting : Setting) : Setting :=
  (setting.convert yaml node).getD setting

/-- The members by the names of their options, and the lines that were printed. -/
structure Members where
  settings : OrderedMap Bytes Setting
  cerr : List Bytes

def Members.init (agentVersion : Bytes) : Members := ⟨.ofList (defaultOptions agentVersion), []⟩

def invalidOption (key : Bytes) : Bytes := lit "Invalid option " ++ key

section Parse
variable (yaml : Yaml)

/-- The body of the loop in `ParseConfiguration`. -/
def setOption (members : Members) (kv : yaml.Node × yaml.Node) : Members × Option YamlException :=
  match yaml.asString kv.1 with
  | none => (members, some .badConversion)
  | some key =>
    match members.settings.find key with
    | some setting =>
      ({ members with settings := members.settings.assign key (setting.set yaml kv.2) }, none)
    | none => ({ members with cerr := members.cerr ++ [invalidOption key] }, none)

def parseConfiguration (members : Members) (input : Bytes) : Members × Option YamlException :=
  match yaml.load input with
  | none => (members, some .parser)
  | some config => runUntil (setOption yaml) members config

/-- `ParseConfigFile`, with the bytes that the stream of a file has. -/
def parseConfigFile (readFile : Bytes → Bytes) (members : Members) (filename : Bytes) :
    Members × Option YamlException :=
  if filename.isEmpty then (members, none) else parseConfiguration yaml members (readFile filename)

/-- The flags of the command line. -/
structure Flags where
  help : Bool
  version : Bool
  verbose : Bool
  option : List Bytes
  configFile : Bytes

/-- An option of the command line as a line of the configuration; there is none without `=`. -/
def optionLine (option : Bytes) : Option Bytes :=
  (option.findIdx? fun c => decide (c = 0x3d)).map fun separatorPos =>
    option.take separatorPos ++ lit ": " ++ option.drop (separatorPos + 1) ++ lit "\n"

def optionStream : List Bytes → Except Bytes Bytes
  | [] => .ok []
  | option :: options =>
    match optionLine option with
    | none => .error (invalidOption option)
    | some line => (optionStream options).map (line ++ ·)

/-- What `ParseArguments` returns, and whether a YAML exception goes through it. -/
structure Parsed where
  members : Members
  verboseLogging : Bool
  result : Except YamlException ℤ

/-- `ParseArguments`, by the flags that the command line has; it has none if it is malformed. -/
def parseArguments (readFile : Bytes → Bytes) (members : Members) (flags : Option Flags) : Parsed :=
  match flags with
  | none => ⟨members, false, .ok 1⟩
  | some flags =>
    if flags.help || flags.version then ⟨members, flags.verbose, .ok (-1)⟩
    else
      match parseConfigFile yaml readFile members flags.configFile with
      | (members, some e) => ⟨members, flags.verbose, .error e⟩
      | (members, none) =>
        if flags.option.isEmpty then ⟨members, flags.verbose, .ok 0⟩
        else
          match optionStream flags.option with
          | .error line =>
            ⟨{ members with cerr := members.cerr ++ [line] }, flags.verbose, .ok 1⟩
          | .ok stream =>
            match parseConfiguration yaml members stream with
            | (members, some e) => ⟨members, flags.verbose, .error e⟩
            | (members, none) => ⟨members, flags.verbose, .ok 0⟩

/-! ## What a configuration leaves -/

/-- The value that a pair has for the option. -/
def assigned (name : Bytes) (setting : Setting) (kv : yaml.Node × yaml.Node) : Option Setting :=
  if yaml.asString kv.1 = some name then setting.convert yaml kv.2 else none

/-- The last pair for the option that converts to its type; else what the option was. -/
def settled (name : Bytes) (config : List (yaml.Node × yaml.Node)) (setting : Setting) : Setting :=
  ((latest (assigned yaml name setting) config).map Prod.fst).getD setting

/-- The lines for the keys that are no options. -/
def rejected (settings : OrderedMap Bytes Setting) (config : List (yaml.Node × yaml.Node)) :
    List Bytes :=
  (config.filterMap fun kv => yaml.asString kv.1).filterMap fun key =>
    if (settings.find key).isSome then none else some (invalidOption key)

/-- What the pairs make of the members. -/
structure Configured (config : List (yaml.Node × yaml.Node)) (before after : Members) : Prop where
  settings : ∀ name, after.settings.find name =
    (before.settings.find name).map (settled yaml name config)
  cerr : after.cerr = before.cerr ++ rejected yaml before.settings config

variable {yaml}

theorem convert_convert {setting value : Setting} {node : yaml.Node}
    (h : setting.convert yaml node = some value) (node' : yaml.Node) :
    value.convert yaml node' = setting.convert yaml node' := by
  cases setting with
  | text v =>
    obtain ⟨v', -, rfl⟩ := Option.map_eq_some_iff.mp h
    rfl
  | int v =>
    obtain ⟨v', -, rfl⟩ := Option.map_eq_some_iff.mp h
    rfl
  | bool v =>
    obtain ⟨v', -, rfl⟩ := Option.map_eq_some_iff.mp h
    rfl

theorem settled_cons (name : Bytes) (kv : yaml.Node × yaml.Node)
    (config : List (yaml.Node × yaml.Node)) (setting : Setting) :
    settled yaml name (kv :: config) setting =
      settled yaml name config ((assigned yaml name setting kv).getD setting) := by
  cases hkv : assigned yaml name setting kv with
  | none =>
    rw [settled, latest, hkv, Option.map_none, Option.or_none]
    rfl
  | some value =>
    have hsame : assigned yaml name value = assigned yaml name setting := by
      rw [assigned] at hkv
      split at hkv
      · funext kv'
        rw [assigned, assigned, convert_convert hkv]
      · cases hkv
    rw [settled, settled, latest, hkv, Option.getD_some, hsame]
    cases latest (assigned yaml name setting) config <;> rfl

theorem Configured.refl (members : Members) : Configured yaml [] members members where
  settings name := by
    have hsettled : settled yaml name [] = id := rfl
    rw [hsettled, Option.map_id]
    rfl
  cerr := (List.append_nil _).symm

/-- The keys stay the same. -/
theorem Configured.isSome {config : List (yaml.Node × yaml.Node)} {before after : Members}
    (h : Configured yaml config before after) (name : Bytes) :
    (after.settings.find name).isSome = (before.settings.find name).isSome := by
  rw [h.settings, Option.isSome_map]

theorem Configured.rejected_eq {config : List (yaml.Node × yaml.Node)} {before after : Members}
    (h : Configured yaml config before after) (config' : List (yaml.Node × yaml.Node)) :
    rejected yaml after.settings config' = rejected yaml before.settings config' := by
  rw [rejected, rejected]
  simp only [h.isSome]

theorem settled_append (name : Bytes) (config config' : List (yaml.Node × yaml.Node))
    (setting : Setting) :
    settled yaml name (config ++ config') setting =
      settled yaml name config' (settled yaml name config setting) := by
  induction config generalizing setting with
  | nil => rfl
  | cons kv config ih => rw [List.cons_append, settled_cons, ih, settled_cons]

theorem Configured.trans {config config' : List (yaml.Node × yaml.Node)}
    {before middle after : Members} (h : Configured yaml config before middle)
    (h' : Configured yaml config' middle after) :
    Configured yaml (config ++ config') before after where
  settings name := by
    rw [h'.settings, h.settings, Option.map_map]
    congr 1
    funext setting
    exact (settled_append name config config' setting).symm
  cerr := by
    rw [h'.cerr, h.cerr, h.rejected_eq, rejected, rejected, rejected, List.filterMap_append,
      List.filterMap_append, List.append_assoc]

theorem setOption_throws (members : Members) (kv : yaml.Node × yaml.Node) :
    (setOption yaml members kv).2 = none ↔ (yaml.asString kv.1).isSome = true := by
  cases hkey : yaml.asString kv.1 with
  | none =>
    simp only [setOption, hkey]
    exact iff_of_false (fun h => by cases h) (fun h => by cases h)
  | some key =>
    refine iff_of_true ?_ rfl
    cases hfind : members.settings.find key with
    | none => simp only [setOption, hkey, hfind]
    | some setting => simp only [setOption, hkey, hfind]

theorem configured_setOption (members : Members) (kv : yaml.Node × yaml.Node)
    (hkey : (yaml.asString kv.1).isSome = true) :
    Configured yaml [kv] members (setOption yaml members kv).1 := by
  obtain ⟨key, hkey⟩ := Option.isSome_iff_exists.mp hkey
  have hother : ∀ name, name ≠ key → ∀ setting, settled yaml name [kv] setting = setting := by
    intro name hname setting
    have hnone : assigned yaml name setting kv = none := by
      rw [assigned, if_neg]
      rw [hkey]
      exact fun h => hname (Option.some.inj h).symm
    rw [settled_cons, hnone]
    rfl
  have hown : ∀ setting, settled yaml key [kv] setting = setting.set yaml kv.2 := by
    intro setting
    have hsome : assigned yaml key setting kv = setting.convert yaml kv.2 := by
      rw [assigned, if_pos hkey]
    rw [settled_cons, hsome]
    rfl
  have hrejected : rejected yaml members.settings [kv] =
      if (members.settings.find key).isSome then [] else [invalidOption key] := by
    rw [rejected, List.filterMap_cons, hkey, List.filterMap_nil, List.filterMap_cons]
    cases (members.settings.find key).isSome <;> rfl
  cases hfind : members.settings.find key with
  | none =>
    rw [hfind] at hrejected
    simp only [setOption, hkey, hfind]
    refine ⟨fun name => ?_, ?_⟩
    · by_cases hname : name = key
      · subst hname
        simp only [hfind, Option.map_none]
      · have hid : settled yaml name [kv] = id := funext (hother name hname)
        rw [hid, Option.map_id]
        rfl
    · rw [hrejected]
      rfl
  | some setting =>
    rw [hfind] at hrejected
    simp only [setOption, hkey, hfind]
    refine ⟨fun name => ?_, ?_⟩
    · rw [OrderedMap.find_assign]
      by_cases hname : name = key
      · subst hname
        rw [if_pos rfl, hfind, Option.map_some, hown]
      · have hid : settled yaml name [kv] = id := funext (hother name hname)
        rw [if_neg hname, hid, Option.map_id]
        rfl
    · rw [hrejected]
      exact (List.append_nil _).symm

theorem run_setOption_none (members : Members) (config : List (yaml.Node × yaml.Node)) :
    (runUntil (setOption yaml) members config).2 = none ↔
      ∀ kv ∈ config, (yaml.asString kv.1).isSome = true := by
  induction config generalizing members with
  | nil => exact iff_of_true rfl fun kv hkv => absurd hkv List.not_mem_nil
  | cons kv config ih =>
    rw [List.forall_mem_cons, ← setOption_throws members kv]
    rcases hkv : setOption yaml members kv with ⟨next, _ | e⟩
    · rw [runUntil_cons_none _ hkv, ih]
      exact (and_iff_right rfl).symm
    · rw [runUntil_cons_some _ hkv]
      exact iff_of_false (fun h => by cases h) (fun h => by cases h.1)

theorem configured_run (members : Members) {config : List (yaml.Node × yaml.Node)}
    (hkeys : ∀ kv ∈ config, (yaml.asString kv.1).isSome = true) :
    Configured yaml config members (runUntil (setOption yaml) members config).1 := by
  induction config generalizing members with
  | nil => exact .refl members
  | cons kv config ih =>
    obtain ⟨hkey, hrest⟩ := List.forall_mem_cons.mp hkeys
    have hfirst := configured_setOption members kv hkey
    have hnone := (setOption_throws members kv).mpr hkey
    rcases hkv : setOption yaml members kv with ⟨next, e⟩
    rw [hkv] at hfirst hnone
    cases hnone
    rw [runUntil_cons_none _ hkv]
    exact hfirst.trans (ih next hrest)

/-! ## What the arguments leave -/

/-- The pairs of the file, if its bytes load; no file has none. -/
def filePairs (yaml : Yaml) (readFile : Bytes → Bytes) (given : Flags) :
    Option (List (yaml.Node × yaml.Node)) :=
  if given.configFile.isEmpty then some [] else yaml.load (readFile given.configFile)

/-- The pairs of the command line, if each option has a separator and the lines load. -/
def commandPairs (yaml : Yaml) (given : Flags) : Option (List (yaml.Node × yaml.Node)) :=
  if given.option.isEmpty then some []
  else
    match optionStream given.option with
    | .error _ => none
    | .ok stream => yaml.load stream

/-- The arguments are taken, with these pairs. -/
structure Accepted (yaml : Yaml) (readFile : Bytes → Bytes) (given : Flags)
    (ofFile ofCommand : List (yaml.Node × yaml.Node)) : Prop where
  runs : (given.help || given.version) = false
  file : filePairs yaml readFile given = some ofFile
  command : commandPairs yaml given = some ofCommand
  keys : ∀ kv ∈ ofFile ++ ofCommand, (yaml.asString kv.1).isSome = true

theorem parseConfigFile_eq (readFile : Bytes → Bytes) (members : Members) (given : Flags) :
    parseConfigFile yaml readFile members given.configFile =
      match filePairs yaml readFile given with
      | none => (members, some .parser)
      | some config => runUntil (setOption yaml) members config := by
  rw [parseConfigFile, filePairs]
  cases given.configFile.isEmpty with
  | true => rfl
  | false =>
    rw [if_neg Bool.false_ne_true, if_neg Bool.false_ne_true]
    rfl

/-- The first option without a separator is the one that is reported. -/
theorem optionStream_error {option : List Bytes} {line : Bytes}
    (h : optionStream option = .error line) :
    ∃ before bad after, option = before ++ bad :: after ∧ 0x3d ∉ bad ∧
      (∀ good ∈ before, 0x3d ∈ good) ∧ line = invalidOption bad := by
  induction option with
  | nil => cases h
  | cons first option ih =>
    cases hline : optionLine first with
    | none =>
      rw [optionStream, hline] at h
      cases h
      refine ⟨[], first, option, rfl, ?_, fun good hgood => absurd hgood List.not_mem_nil, rfl⟩
      rw [optionLine, Option.map_eq_none_iff, List.findIdx?_eq_none_iff] at hline
      intro hmem
      simpa using hline _ hmem
    | some text =>
      rw [optionStream, hline] at h
      have hrest : optionStream option = .error line := by
        cases hoption : optionStream option with
        | error e =>
          rw [hoption] at h
          cases h
          rfl
        | ok stream =>
          rw [hoption] at h
          cases h
      have hfirst : 0x3d ∈ first := by
        by_contra hno
        have hnone : optionLine first = none := by
          rw [optionLine, Option.map_eq_none_iff, List.findIdx?_eq_none_iff]
          intro c hc
          exact decide_eq_false fun heq => hno (heq ▸ hc)
        rw [hnone] at hline
        cases hline
      obtain ⟨before, bad, after, rfl, hbad, hbefore, hreport⟩ := ih hrest
      exact ⟨first :: before, bad, after, rfl, hbad, List.forall_mem_cons.mpr ⟨hfirst, hbefore⟩,
        hreport⟩

/-- The arguments stop with the file. -/
theorem parseArguments_file_throws (readFile : Bytes → Bytes) (members : Members) {given : Flags}
    (hruns : (given.help || given.version) = false)
    (hfile : ∀ ofFile, filePairs yaml readFile given = some ofFile →
      (runUntil (setOption yaml) members ofFile).2 ≠ none) :
    ∃ after e, parseArguments yaml readFile members (some given) =
      ⟨after, given.verbose, .error e⟩ := by
  simp only [parseArguments, hruns, Bool.false_eq_true, if_false, parseConfigFile_eq]
  cases hpairs : filePairs yaml readFile given with
  | none => exact ⟨members, .parser, rfl⟩
  | some ofFile =>
    have hthrows := hfile ofFile hpairs
    rcases hrun : runUntil (setOption yaml) members ofFile with ⟨after, _ | e⟩
    · rw [hrun] at hthrows
      exact absurd rfl hthrows
    · exact ⟨after, e, by simp only [hrun]⟩

/-- The file is taken, and the command line is next. -/
theorem parseArguments_file {readFile : Bytes → Bytes} {members middle : Members} {given : Flags}
    {ofFile : List (yaml.Node × yaml.Node)} (hruns : (given.help || given.version) = false)
    (hfile : filePairs yaml readFile given = some ofFile)
    (hrun : runUntil (setOption yaml) members ofFile = (middle, none)) :
    parseArguments yaml readFile members (some given) =
      if given.option.isEmpty then ⟨middle, given.verbose, .ok 0⟩
      else
        match optionStream given.option with
        | .error line =>
          ⟨{ middle with cerr := middle.cerr ++ [line] }, given.verbose, .ok 1⟩
        | .ok stream =>
          match parseConfiguration yaml middle stream with
          | (members, some e) => ⟨members, given.verbose, .error e⟩
          | (members, none) => ⟨members, given.verbose, .ok 0⟩ := by
  simp only [parseArguments, hruns, Bool.false_eq_true, if_false, parseConfigFile_eq, hfile, hrun]

theorem parseConfiguration_eq {stream : Bytes} {config : List (yaml.Node × yaml.Node)}
    (hload : yaml.load stream = some config) (members : Members) :
    parseConfiguration yaml members stream = runUntil (setOption yaml) members config := by
  rw [parseConfiguration, hload]

/-- Arguments that are taken apply the file and then the command line. -/
theorem Accepted.parsed {readFile : Bytes → Bytes} {given : Flags}
    {ofFile ofCommand : List (yaml.Node × yaml.Node)}
    (h : Accepted yaml readFile given ofFile ofCommand) (members : Members) :
    ∃ after, parseArguments yaml readFile members (some given) = ⟨after, given.verbose, .ok 0⟩ ∧
      Configured yaml (ofFile ++ ofCommand) members after := by
  obtain ⟨hfileKeys, hcommandKeys⟩ := List.forall_mem_append.mp h.keys
  have hfile := configured_run members hfileKeys
  have hfileEnd := (run_setOption_none members ofFile).mpr hfileKeys
  have hcommand := h.command
  rcases hrun : runUntil (setOption yaml) members ofFile with ⟨middle, e⟩
  rw [hrun] at hfile hfileEnd
  cases hfileEnd
  rw [parseArguments_file h.runs h.file hrun]
  rw [commandPairs] at hcommand
  cases hempty : given.option.isEmpty with
  | true =>
    rw [hempty] at hcommand
    cases hcommand
    refine ⟨middle, rfl, ?_⟩
    rw [List.append_nil]
    exact hfile
  | false =>
    rw [hempty] at hcommand
    cases hstream : optionStream given.option with
    | error line =>
      rw [hstream] at hcommand
      cases hcommand
    | ok stream =>
      rw [hstream] at hcommand
      have hload : yaml.load stream = some ofCommand := hcommand
      have hsecond := configured_run middle hcommandKeys
      have hsecondEnd := (run_setOption_none middle ofCommand).mpr hcommandKeys
      rcases hrun' : runUntil (setOption yaml) middle ofCommand with ⟨after, e⟩
      rw [hrun'] at hsecond hsecondEnd
      cases hsecondEnd
      refine ⟨after, ?_, hfile.trans hsecond⟩
      simp only [parseConfiguration_eq hload, hrun', Bool.false_eq_true, if_false]

/-- The other arguments return something else, and what they have set is in the file. -/
theorem parsed_of_not_accepted {readFile : Bytes → Bytes} {given : Flags} (members : Members)
    (h : ∀ ofFile ofCommand, ¬ Accepted yaml readFile given ofFile ofCommand) :
    (∃ after e, parseArguments yaml readFile members (some given) =
        ⟨after, given.verbose, .error e⟩) ∨
      ((given.help || given.version) = true ∧
        parseArguments yaml readFile members (some given) =
          ⟨members, given.verbose, .ok (-1)⟩) ∨
      ∃ ofFile line after, filePairs yaml readFile given = some ofFile ∧
        optionStream given.option = .error line ∧ Configured yaml ofFile members after ∧
        parseArguments yaml readFile members (some given) =
          ⟨{ after with cerr := after.cerr ++ [line] }, given.verbose, .ok 1⟩ := by
  cases hruns : given.help || given.version with
  | true =>
    refine .inr (.inl ⟨rfl, ?_⟩)
    simp only [parseArguments, hruns, if_true]
  | false =>
    by_cases hthrows : ∀ ofFile, filePairs yaml readFile given = some ofFile →
        (runUntil (setOption yaml) members ofFile).2 ≠ none
    · exact .inl (parseArguments_file_throws readFile members hruns hthrows)
    push Not at hthrows
    obtain ⟨ofFile, hfile, hend⟩ := hthrows
    have hfileKeys := (run_setOption_none members ofFile).mp hend
    have hconfigured := configured_run members hfileKeys
    rcases hrun : runUntil (setOption yaml) members ofFile with ⟨middle, e⟩
    rw [hrun] at hconfigured hend
    cases hend
    rw [parseArguments_file hruns hfile hrun]
    have hnot := h ofFile
    cases hempty : given.option.isEmpty with
    | true =>
      refine absurd ⟨hruns, hfile, ?_, ?_⟩ (hnot [])
      · rw [commandPairs, hempty]
        rfl
      · rw [List.append_nil]
        exact hfileKeys
    | false =>
      cases hstream : optionStream given.option with
      | error line => exact .inr (.inr ⟨ofFile, line, middle, hfile, rfl, hconfigured, rfl⟩)
      | ok stream =>
        left
        cases hload : yaml.load stream with
        | none =>
          refine ⟨middle, .parser, ?_⟩
          simp only [parseConfiguration, hload, Bool.false_eq_true, if_false]
        | some ofCommand =>
          have hcommandKeys := (run_setOption_none middle ofCommand).mp
          rcases hrun' : runUntil (setOption yaml) middle ofCommand with ⟨after, _ | e⟩
          · rw [hrun'] at hcommandKeys
            refine absurd ⟨hruns, hfile, ?_,
              List.forall_mem_append.mpr ⟨hfileKeys, hcommandKeys rfl⟩⟩ (hnot ofCommand)
            rw [commandPairs, hempty, hstream]
            exact hload
          · refine ⟨after, e, ?_⟩
            simp only [parseConfiguration_eq hload, hrun', Bool.false_eq_true, if_false]

end Parse

/-- Zero is returned for the arguments that are taken and for no others. Then every option is what
the last setting that converts makes of it, the settings of the command line being after those of
the file, and the keys that are no options are reported in this order. An option without a separator
leaves what the file has set and nothing of the command line. -/
theorem arguments_settle (yaml : Yaml) (readFile : Bytes → Bytes) (agentVersion : Bytes)
    (given : Flags) :
    let members := Members.init agentVersion
    let parsed := parseArguments yaml readFile members (some given)
    (parsed.result = .ok 0 ↔
      ∃ ofFile ofCommand, Accepted yaml readFile given ofFile ofCommand) ∧
    (∀ ofFile ofCommand, Accepted yaml readFile given ofFile ofCommand →
      parsed.verboseLogging = given.verbose ∧
      (∀ name, parsed.members.settings.find name =
        (lookup name (defaultOptions agentVersion)).map
          (settled yaml name (ofFile ++ ofCommand))) ∧
      parsed.members.cerr = rejected yaml members.settings (ofFile ++ ofCommand)) ∧
    (parsed.result = .ok 1 → ∃ ofFile before bad after,
      filePairs yaml readFile given = some ofFile ∧
      given.option = before ++ bad :: after ∧ 0x3d ∉ bad ∧ (∀ good ∈ before, 0x3d ∈ good) ∧
      (∀ name, parsed.members.settings.find name =
        (lookup name (defaultOptions agentVersion)).map (settled yaml name ofFile)) ∧
      parsed.members.cerr = rejected yaml members.settings ofFile ++ [invalidOption bad]) ∧
    (parsed.result = .ok (-1) →
      (given.help || given.version) = true ∧ parsed.members = members) := by
  intro members parsed
  have hdefault : ∀ name, members.settings.find name = lookup name (defaultOptions agentVersion) :=
    fun name => OrderedMap.find_ofList _ name
  have hsilent : members.cerr = [] := rfl
  have hrun : parseArguments yaml readFile members (some given) = parsed := rfl
  clear_value members parsed
  by_cases haccepted : ∃ ofFile ofCommand, Accepted yaml readFile given ofFile ofCommand
  · have hzero : parsed.result = .ok 0 := by
      obtain ⟨ofFile, ofCommand, h⟩ := haccepted
      obtain ⟨after, hparsed, -⟩ := h.parsed members
      rw [← hrun, hparsed]
    refine ⟨iff_of_true hzero haccepted, ?_, ?_, ?_⟩
    · intro ofFile ofCommand h
      obtain ⟨after, hparsed, hsettings, hcerr⟩ := h.parsed members
      rw [hrun] at hparsed
      subst hparsed
      refine ⟨rfl, fun name => ?_, ?_⟩
      · rw [← hdefault]
        exact hsettings name
      · rw [hsilent] at hcerr
        exact hcerr
    · intro hone
      rw [hzero] at hone
      cases hone
    · intro hminus
      rw [hzero] at hminus
      cases hminus
  · have hnot : ∀ ofFile ofCommand, ¬ Accepted yaml readFile given ofFile ofCommand :=
      fun ofFile ofCommand h => haccepted ⟨ofFile, ofCommand, h⟩
    have hcases := parsed_of_not_accepted members hnot
    rw [hrun] at hcases
    rcases hcases with ⟨after, e, rfl⟩ | ⟨hruns, rfl⟩ |
      ⟨ofFile, line, after, hfile, hstream, ⟨hsettings, hcerr⟩, rfl⟩
    · refine ⟨iff_of_false (fun h => by cases h) haccepted, ?_, (fun h => by cases h),
        (fun h => by cases h)⟩
      intro ofFile ofCommand h
      exact absurd h (hnot ofFile ofCommand)
    · refine ⟨iff_of_false (fun h => by cases h) haccepted, ?_, (fun h => by cases h),
        fun _ => ⟨hruns, rfl⟩⟩
      intro ofFile ofCommand h
      exact absurd h (hnot ofFile ofCommand)
    · obtain ⟨before, bad, rest, hoption, hbad, hgood, rfl⟩ := optionStream_error hstream
      refine ⟨iff_of_false (fun h => by cases h) haccepted, ?_, fun _ => ?_, fun h => by cases h⟩
      · intro ofFile ofCommand h
        exact absurd h (hnot ofFile ofCommand)
      · refine ⟨ofFile, before, bad, rest, hfile, hoption, hbad, hgood, fun name => ?_, ?_⟩
        · rw [← hdefault]
          exact hsettings name
        · rw [hsilent] at hcerr
          rw [hcerr]
          rfl

/-- Lines of a key and a value. -/
def plainYaml : Yaml where
  Node := Bytes
  load text := some ((text.splitOn 0x0a).filterMap fun line =>
    (line.findIdx? fun c => decide (c = 0x3a)).map fun at_ => (line.take at_, line.drop (at_ + 2)))
  asString := some
  asInt node :=
    if node.all fun c => decide (0x30 ≤ c ∧ c ≤ 0x39) then
      some (node.foldl (fun value c => 10 * value + (c.toNat - 0x30)) 0)
    else none
  asBool node :=
    if node = lit "true" then some true else if node = lit "false" then some false else none

theorem arguments_settle_port :
    (parseArguments plainYaml (fun _ => lit "MetadataApiPort: 80\nPort: 1\n")
      (Members.init (lit "0.0.21")) (some {
        help := false, version := false, verbose := false,
        option := [lit "MetadataApiPort=8080", lit "MetadataApiPort=x"],
        configFile := lit "agent.yaml" })).members.settings.find (lit "MetadataApiPort") =
      some (.int 8080) := by
  have h := (arguments_settle plainYaml (fun _ => lit "MetadataApiPort: 80\nPort: 1\n")
    (lit "0.0.21") {
      help := false, version := false, verbose := false,
      option := [lit "MetadataApiPort=8080", lit "MetadataApiPort=x"],
      configFile := lit "agent.yaml" }).2.1
    [(lit "MetadataApiPort", lit "80"), (lit "Port", lit "1")]
    [(lit "MetadataApiPort", lit "8080"), (lit "MetadataApiPort", lit "x")]
    ⟨rfl, rfl, rfl, fun _ _ => rfl⟩
  refine (h.2.1 _).trans ?_
  decide +kernel

end MetadataAgent.Options
