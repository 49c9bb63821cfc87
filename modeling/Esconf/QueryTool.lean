import Esconf.OverlaidBackends
import Esconf.SettingsBackend
import Mathlib.Data.List.Sort

/-! The command line tool, `esconf-query/main.c`, and the calls it makes to the daemon. -/

namespace Esconf.Client.Query

structure Options where
  version : Bool
  list : Bool
  verbose : Bool
  create : Bool
  reset : Bool
  recursive : Bool
  forceArray : Bool
  monitor : Bool
  toggle : Bool
  channelName : Option CString
  propertyName : Option CString
  setValue : Option (List CString)
  type : Option (List CString)

/-- What the tool finds: the text of `--version`, which the configuration of the build fills
in, the outcome of `esconf_init`, the reply of ListChannels, `g_utf8_collate` and the order in
which a hash table is gone through. -/
structure Surroundings where
  versionText : CString
  bus : Except CString Unit
  channels : Option (List CString)
  collate : CString → CString → Int
  collate_total : ∀ one other, collate one other ≤ 0 ∨ collate other one ≤ 0
  collate_trans : ∀ one other last, collate one other ≤ 0 → collate other last ≤ 0 →
    collate one last ≤ 0
  visit : List CString → List CString
  visit_perm : ∀ names, (visit names).Perm names

inductive ExitStatus where
  | success | failure
  deriving DecidableEq

/-- How the tool ends, with what it has printed; a tool that monitors does not. -/
inductive Run where
  | exits (status : ExitStatus) (out err : CString)
  | monitors (out : CString)

def errorName : EsconfError → CString
  | .unknown => "com.expidus.Esconf.Error.Unknown".toList
  | .channelNotFound => "com.expidus.Esconf.Error.ChannelNotFound".toList
  | .propertyNotFound => "com.expidus.Esconf.Error.PropertyNotFound".toList
  | .readFailure => "com.expidus.Esconf.Error.ReadFailure".toList
  | .writeFailure => "com.expidus.Esconf.Error.WriteFailure".toList
  | .permissionDenied => "com.expidus.Esconf.Error.PermissionDenied".toList
  | .internalError => "com.expidus.Esconf.Error.InternalError".toList
  | .noBackend => "com.expidus.Esconf.Error.NoBackend".toList
  | .invalidProperty => "com.expidus.Esconf.Error.InvalidProperty".toList
  | .invalidChannel => "com.expidus.Esconf.Error.InvalidChannel".toList

def remoteError (error : GError) : DBusError :=
  match error.code with
  | .esconf code => ⟨some (errorName code), error.message⟩
  | .markup _ => ⟨none, error.message⟩

/-- The reply that a client gets, with the D-Bus names of its errors. -/
def received {α S : Type} : Option (Except GError α × S) → Except DBusError α
  | some (result, _) => result.mapError remoteError
  | none => .error ⟨some "org.freedesktop.DBus.Error.NoReply".toList, []⟩

/-- The cache of the one channel of the tool, and the backend of the daemon. -/
structure Process where
  cache : EsconfCache
  backend : EsconfBackendPerchannelXml

variable (surroundings : Surroundings) (host : Host)

/-- The entries of a dictionary that is sent for a hash table with the given keys. -/
def dictionary (names : List CString) (table : CString → Option GVariant) :
    List (CString × GVariant) :=
  (surroundings.visit names.dedup).filterMap fun name => (table name).map (name, ·)

/-- The keys that `esconf_get_all_properties` puts into its table. -/
def insertedNames (backend : EsconfBackendPerchannelXml) (channel propertyBase : CString) :
    List CString :=
  match Daemon.getAllFrom (Daemon.perchannelXml host) channel propertyBase [backend] with
  | some (inserted, _) => inserted.map Prod.fst
  | none => []

def answers (backend : EsconfBackendPerchannelXml) : Daemon where
  getProperty channel property := received
    (Daemon.esconfGetProperty host (Daemon.perchannelXml host) [backend] channel property)
  getAllProperties channel propertyBase :=
    (received (Daemon.esconfGetAllProperties host (Daemon.perchannelXml host) [backend] channel
      propertyBase)).map (dictionary surroundings (insertedNames host backend channel propertyBase))
  resetProperty channel property recursive := received
    (Daemon.esconfResetProperty (Daemon.changingXml host) [backend] channel property recursive)
  isPropertyLocked channel property := received
    (Daemon.esconfIsPropertyLocked (Daemon.changingXml host) [backend] channel property)

namespace Process

def channel (process : Process) : EsconfChannel :=
  ⟨process.cache.channelName, none, process.cache, rfl⟩

def lookedUp (process : Process) (property : CString) : Option EsconfBackendPerchannelXml :=
  if (process.cache.properties property).isSome then some process.backend
  else (Daemon.esconfGetProperty host (Daemon.perchannelXml host) [process.backend]
    process.cache.channelName property).map fun reply => reply.2.headD process.backend

/-- The SetProperty call of `esconf_cache_set`, which `esconf_shutdown` does not leave unsent. -/
def sentCall (process : Process) (property : CString) (value : GValue) : Option SetPropertyCall :=
  (esconfCacheSet host process.cache property value
    ((answers surroundings host process.backend).getProperty process.cache.channelName
      property)).bind SetReturn.call

/-- The backend after the calls that a request makes; `none` when the daemon does not survive
one. -/
def carryOut (process : Process) : Option ChannelRequest → Option EsconfBackendPerchannelXml
  | none => some process.backend
  | some (.cacheLookup property) => process.lookedUp host property
  | some (.cacheSet property value) =>
    (process.lookedUp host property).bind fun backend =>
      match process.sentCall surroundings host property value with
      | none => some backend
      | some call =>
        (Daemon.esconfSetProperty (Daemon.perchannelXml host) backend [] process.cache.channelName
          call.property call.variant).map fun outcome => outcome.backends.headD backend
  | some (.cacheReset propertyBase recursive) =>
    (Daemon.esconfResetProperty (Daemon.changingXml host) [process.backend]
      process.cache.channelName propertyBase recursive).map fun reply =>
        reply.2.headD process.backend
  | some (.getAllProperties channelName propertyBase) =>
    (Daemon.esconfGetAllProperties host (Daemon.perchannelXml host) [process.backend] channelName
      propertyBase).map fun reply => reply.2.headD process.backend
  | some (.isPropertyLocked channelName property) =>
    (Daemon.esconfIsPropertyLocked (Daemon.changingXml host) [process.backend] channelName
      property).map fun reply => reply.2.headD process.backend

/-- An operation of the library, with the calls that it makes. -/
def call {α : Type} (process : Process) (operation : Daemon → EsconfChannel → Outcome α) :
    Option (α × Process) :=
  let done := operation (answers surroundings host process.backend) process.channel
  (process.carryOut surroundings host done.request).map fun backend =>
    (done.ret, ⟨done.cache, backend⟩)

/-- `esconf_channel_set_property`, with the calls that it makes. -/
def setProperty (process : Process) (property : CString) (value : GValue) :
    Option (Bool × Process) :=
  (esconfChannelSetProperty host (answers surroundings host process.backend) process.channel
    property value).bind fun done =>
      (process.carryOut surroundings host done.request).map fun backend =>
        (done.ret, ⟨done.cache, backend⟩)

/-- `esconf_channel_set_bool`, with the calls that it makes. -/
def setBool (process : Process) (property : CString) (value : Bool) : Option (Bool × Process) :=
  (esconfChannelSetInternal host (answers surroundings host process.backend) process.channel
    property (.boolean value)).bind fun done =>
      (process.carryOut surroundings host done.request).map fun backend =>
        (done.ret, ⟨done.cache, backend⟩)

/-- `esconf_channel_new`, which fetches the whole channel. -/
def esconfChannelNew (backend : EsconfBackendPerchannelXml) (channelName : CString) :
    Option Process :=
  (Daemon.esconfGetAllProperties host (Daemon.perchannelXml host) [backend] channelName
    "/".toList).map fun reply =>
      ⟨(esconfCachePrefetch (.new channelName) (reply.1.mapError remoteError)).2,
        reply.2.headD backend⟩

end Process

/-- `esconf_query_printerr`. -/
def esconfQueryPrinterr (message : CString) : CString := message ++ ".\n".toList

def fails (message : CString) (backend : EsconfBackendPerchannelXml) :
    Option (Run × EsconfBackendPerchannelXml) :=
  some (.exits .failure [] (esconfQueryPrinterr message), backend)

def succeeds (out : CString) (backend : EsconfBackendPerchannelXml) :
    Option (Run × EsconfBackendPerchannelXml) :=
  some (.exits .success out [], backend)

def valueLine (value : GValue) : CString :=
  (stringFromGvalue host value).getD "(unknown)".toList ++ "\n".toList

def valueText : GValue → Option CString
  | .ptrArrayNull => none
  | .ptrArray items =>
    some ("Value is an array with ".toList ++ printNat items.length ++ " items:\n\n".toList ++
      items.flatMap (valueLine host))
  | value => some (valueLine host value)

/-- `esconf_query_get_propname_size`. -/
def esconfQueryGetPropnameSize (size : Nat) (name : CString) : Nat :=
  if size < name.length then name.length else size

/-- `esconf_query_list_sorted`: `g_slist_insert_sorted`. -/
def esconfQueryListSorted (sorted : List CString) (name : CString) : List CString :=
  sorted.orderedInsert (fun one other => surroundings.collate one other ≤ 0) name

/-- One line of `esconf_query_list_contents`, for a value that may be NULL. -/
def listLine (verbose : Bool) (size : Nat) (name : CString) (value : Option GValue) :
    Option CString :=
  if verbose then value.map fun value =>
    let string :=
      if value.gtype ≠ .ptrArray then (stringFromGvalue host value).getD "(null)".toList
      else "<<UNSUPPORTED>>".toList
    name ++ List.replicate (size + 2 - name.length) ' ' ++ string ++ "\n".toList
  else some (name ++ "\n".toList)

/-- `esconf_query_list_contents`. -/
def esconfQueryListContents (verbose : Bool) (sorted : List CString)
    (contents : CString → Option GValue) (size : Nat) : Option CString :=
  match sorted with
  | [] => some []
  | name :: rest =>
    (listLine host verbose size name (contents name)).bind fun line =>
      (esconfQueryListContents verbose rest contents size).map (line ++ ·)

variable (options : Options)

/-- The part of `main` that reads a property, and prints or inverts it. -/
def readProperty (process : Process) (property : CString) :
    Option (Run × EsconfBackendPerchannelXml) :=
  (process.call surroundings host fun daemon channel =>
    esconfChannelGetProperty daemon channel property).bind fun (found, process) =>
      match found with
      | none => fails ("Property \"".toList ++ property ++ "\" does not exist on channel \"".toList
          ++ process.cache.channelName ++ "\"".toList) process.backend
      | some value =>
        if options.toggle then
          match value with
          | .boolean flag =>
            (process.setBool surroundings host property (!flag)).bind fun (done, process) =>
              if done then succeeds [] process.backend
              else fails "Failed to set property".toList process.backend
          | _ => fails "--toggle only works with boolean values".toList process.backend
        else (valueText host value).bind fun text => succeeds text process.backend

def givenTypes : List CString := options.type.getD []

/-- The part of `main` that converts the text of a single value. -/
def parseScalar (gtype : GType) (text : CString) : Except CString GValue :=
  if gtype = .invalid ∨ gtype = .none then
    .error "Unable to determine the type of the value".toList
  else if gtype = .ptrArray then
    .error "A value type must be specified to change an array into a single value".toList
  else match gvalueFromString host gtype (some text) with
    | .parsed value => .ok value
    | _ => .error ("Unable to convert \"".toList ++ text ++ "\" to type \"".toList ++
        gTypeName gtype ++ "\"".toList)

/-- The loop of `main` over the texts of an array. -/
def parseItems : Nat → List GType → List CString → Except CString (List GValue)
  | index, gtype :: types, text :: texts =>
    if gtype = .invalid ∨ gtype = .none then
      .error ("Unable to determine type of value at index ".toList ++ printNat index)
    else match gvalueFromString host gtype (some text) with
      | .parsed value => (parseItems (index + 1) types texts).map (value :: ·)
      | _ => .error ("Unable to convert \"".toList ++ text ++ "\" to type \"".toList ++
          gTypeName gtype ++ "\"".toList)
  | _, _, _ => .ok []

def parseArray (types : List GType) (texts : List CString) : Except CString GValue :=
  if texts.length ≠ types.length then
    .error ("There are ".toList ++ printNat texts.length ++ " new values, but only ".toList ++
      printNat types.length ++ " types could be determined".toList)
  else (parseItems host 0 types texts).map .ptrArray

/-- The type of a single value: the first that is given, else that of the value there is. -/
def singleType (old : Option GValue) : GType :=
  match givenTypes options with
  | name :: _ => gtypeFromString name
  | [] => (old.map GValue.gtype).getD .invalid

/-- The types of the items: those given, else those of the array there is. -/
def itemTypes (old : Option GValue) : List GType :=
  match givenTypes options, old with
  | name :: names, _ => (name :: names).map gtypeFromString
  | [], some (.ptrArray items) => items.map GValue.gtype
  | [], _ => []

def newValue (old : Option GValue) (texts : List CString) : Except CString GValue :=
  match texts, options.forceArray with
  | [text], false => parseScalar host (singleType options old) text
  | texts, _ => parseArray host (itemTypes options old) texts

def setNewValue (process : Process) (property : CString) (old : Option GValue)
    (texts : List CString) : Option (Run × EsconfBackendPerchannelXml) :=
  match newValue host options old texts with
  | .error message => fails message process.backend
  | .ok value =>
    (process.setProperty surroundings host property value).bind fun (done, process) =>
      if done then succeeds [] process.backend
      else fails "Failed to set property".toList process.backend

/-- The part of `main` that writes a property, which may have to be there. -/
def writeProperty (process : Process) (property : CString) (texts : List CString) :
    Option (Run × EsconfBackendPerchannelXml) :=
  (process.call surroundings host fun daemon channel =>
    esconfChannelHasProperty daemon channel property).bind fun (propExists, process) =>
      if !propExists && !options.create then
        fails ("Property \"".toList ++ property ++ "\" does not exist on channel \"".toList ++
          process.cache.channelName ++ "\". If a new property should be created, ".toList ++
          "use the --create option".toList) process.backend
      else if givenTypes options ≠ [] then
        setNewValue surroundings host options process property none texts
      else if !propExists then
        fails "When creating a new property, the value type must be specified".toList
          process.backend
      else (process.call surroundings host fun daemon channel =>
        esconfChannelGetProperty daemon channel property).bind fun (old, process) =>
          match old with
          | none => fails "Failed to get the existing type for the value".toList process.backend
          | some value => setNewValue surroundings host options process property (some value) texts

/-- The part of `main` that lists a channel. -/
def listProperties (process : Process) (propertyBase : CString) :
    Option (Run × EsconfBackendPerchannelXml) :=
  (process.call surroundings host fun daemon channel =>
    esconfChannelGetProperties daemon channel propertyBase).bind fun (contents, process) =>
      match contents with
      | none => succeeds ("Channel \"".toList ++ process.cache.channelName ++
          "\" contains no properties.\n".toList) process.backend
      | some contents =>
        -- A hash table has each name once, in an order of its own.
        let names := surroundings.visit (contents.map Prod.fst).dedup
        let sorted := names.foldl (esconfQueryListSorted surroundings) []
        (esconfQueryListContents host options.verbose sorted
          (fun name => (Assignments.last contents name).bind id)
          (names.foldl esconfQueryGetPropnameSize 0)).bind fun text => succeeds text process.backend

/-- `main`, the options being parsed or refused with a message. -/
def main (parsed : Except CString Options) (backend : EsconfBackendPerchannelXml) :
    Option (Run × EsconfBackendPerchannelXml) :=
  match parsed with
  | .error message => fails ("Option parsing failed: ".toList ++ message) backend
  | .ok options =>
    if options.version then succeeds surroundings.versionText backend
    else if options.propertyName.isNone && !options.list && !options.monitor then
      fails "No property specified".toList backend
    else if options.create && options.reset then
      fails "--create and --reset options can not be used together".toList backend
    else if (options.create || options.reset) && options.list then
      fails "--create and --reset options can not be used together with --list".toList backend
    else match surroundings.bus, options.channelName with
      | .error message, _ => fails ("Failed to init libesconf: ".toList ++ message) backend
      | .ok (), none =>
        match surroundings.channels with
        | some channels =>
          succeeds ("Channels:\n".toList ++ channels.flatMap fun name =>
            "  ".toList ++ name ++ "\n".toList) backend
        -- The heading is printed before the channels are asked for.
        | none => some (.exits .failure "Channels:\n".toList [], backend)
      | .ok (), some channelName =>
        (Process.esconfChannelNew host backend channelName).bind fun process =>
          if options.monitor then
            some (.monitors ("Start monitoring channel \"".toList ++ channelName ++
              "\":\n\n".toList), process.backend)
          else match options.propertyName, options.list with
            | some property, false =>
              if options.reset then
                (process.call surroundings host fun daemon channel =>
                  esconfChannelResetProperty daemon channel property options.recursive).bind
                    fun (_, process) => succeeds [] process.backend
              else match options.setValue with
                | some (text :: texts) =>
                  writeProperty surroundings host options process property (text :: texts)
                | _ => readProperty surroundings host options process property
            | property, true =>
              listProperties surroundings host options process (property.getD "/".toList)
            -- Excluded by the first check of the options.
            | none, false => succeeds [] process.backend

end Esconf.Client.Query
