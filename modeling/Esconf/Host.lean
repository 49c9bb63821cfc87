import Esconf.CString

/-! What the sources take from outside the repository: GLib, the C library, the
resource directories and the user database. -/

namespace Esconf

inductive EsconfError where
  | unknown | channelNotFound | propertyNotFound | readFailure | writeFailure
  | permissionDenied | internalError | noBackend | invalidProperty | invalidChannel
  deriving DecidableEq, Repr

inductive MarkupError where
  | unknownElement | unknownAttribute | invalidContent | empty | parse
  deriving DecidableEq, Repr

inductive ErrorCode where
  | esconf (code : EsconfError)
  | markup (code : MarkupError)
  deriving DecidableEq, Repr

structure GError where
  code : ErrorCode
  message : CString
  deriving DecidableEq

/-- What GMarkup hands to the start and end element callbacks. -/
inductive MarkupEvent where
  | startElement (name : CString) (attributes : List (CString × CString))
  | endElement (name : CString)
  deriving DecidableEq

/-- The files by name. -/
abbrev Disk := CString → Option CString

structure Host where
  userName : CString
  /-- The members `/etc/group` lists for a group, if it lists the group. -/
  groupMembers : CString → Option (List CString)
  /-- The places `expidus_resource_lookup_all` looks at for a file stem, most
  important first. -/
  resourcePlaces : CString → List CString
  resourceSaveLocation : CString → Option CString
  /-- `strerror` of a failing `unlink`. -/
  unlinkError : Disk → CString → Option CString
  /-- The events GMarkup delivers for a text, and its own error if the text is
  not well formed. -/
  markupParse : CString → List MarkupEvent × Option GError
  markupEscape : CString → CString
  /-- `g_ascii_strtod`: the bits, the rest of the string and whether errno is ERANGE. -/
  strtod : CString → UInt64 × CString × Bool
  /-- `dval < G_MINFLOAT || dval > G_MAXFLOAT`. -/
  outsideFloat : UInt64 → Bool
  floatOfDouble : UInt64 → UInt32
  doubleOfFloat : UInt32 → UInt64
  /-- `printf ("%f")`. -/
  printDouble : UInt64 → CString
  /-- `g_utf8_validate`. -/
  utf8Validate : CString → Bool

/-- A machine with one user and no files or groups, whose parser knows the texts
of a table and which has no floating point. -/
def Host.bare (texts : List (CString × List MarkupEvent)) : Host where
  userName := "user".toList
  groupMembers := fun _ => none
  resourcePlaces := fun _ => []
  resourceSaveLocation := fun _ => none
  unlinkError := fun _ _ => none
  markupParse := fun text => ((texts.lookup text).getD [], none)
  markupEscape := fun text => text
  strtod := fun text => (0, text, false)
  outsideFloat := fun _ => true
  floatOfDouble := fun _ => 0
  doubleOfFloat := fun _ => 0
  printDouble := fun _ => "0.000000".toList
  utf8Validate := fun _ => true

theorem Host.bare_markupParse (text : CString) (events : List MarkupEvent)
    (rest : List (CString × List MarkupEvent)) :
    (Host.bare ((text, events) :: rest)).markupParse text = (events, none) := by
  simp [Host.bare]

/-- `expidus_resource_lookup_all`: the places that hold a file. -/
def Host.resourceLookupAll (host : Host) (disk : Disk) (stem : CString) : List CString :=
  (host.resourcePlaces stem).filter fun place => (disk place).isSome

end Esconf
