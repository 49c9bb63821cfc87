import Esconf.GValue
import Esconf.CNumber
import Esconf.Host

/-! `common/esconf-gvaluefuncs.c`: GValues from and to text. -/

namespace Esconf

/-- `_esconf_gtype_from_string`. -/
def gtypeFromString (type : CString) : GType :=
  if type = "empty".toList then .none
  else if type = "string".toList then .string
  else if type = "int".toList then .int
  else if type = "double".toList then .double
  else if type = "bool".toList then .boolean
  else if type = "array".toList then .ptrArray
  else if type = "uint".toList then .uint
  else if type = "uchar".toList then .uchar
  else if type = "char".toList then .char
  else if type = "uint16".toList then .uint16
  else if type = "int16".toList then .int16
  else if type = "uint64".toList then .uint64
  else if type = "int64".toList then .int64
  else if type = "float".toList then .float
  else .invalid

/-- `g_type_name` of the types `_esconf_gtype_from_string` gives. -/
def gTypeName : GType → CString
  | .invalid => "invalid".toList
  | .none => "void".toList
  | .string => "gchararray".toList
  | .uchar => "guchar".toList
  | .char => "gchar".toList
  | .uint => "guint".toList
  | .int => "gint".toList
  | .uint64 => "guint64".toList
  | .int64 => "gint64".toList
  | .float => "gfloat".toList
  | .double => "gdouble".toList
  | .boolean => "gboolean".toList
  | .uint16 => "EsconfUint16".toList
  | .int16 => "EsconfInt16".toList
  | .strv => "GStrv".toList
  | .ptrArray => "GPtrArray".toList
  | .other _ => "other".toList

/-- How `_esconf_gvalue_from_string` ends; `fault` is a NULL string handed to a
conversion or a comparison. -/
inductive FromString where
  | parsed (value : GValue)
  | refused
  | fault

/-- `REAL_HANDLE_INT`: the converted number goes through a `gint64`. -/
def realHandleInt (convert : CString → Conversion) (minval maxval : Int) (make : Int → GValue)
    (str : CString) : FromString :=
  let conversion := convert str
  let intval := conversion.value.bmod (2 ^ 64)
  if intval = 0 ∧ conversion.erange = true then .refused
  else if str = [] ∨ conversion.endptr ≠ [] then .refused
  else if intval < minval ∨ maxval < intval then .refused
  else .parsed (make intval)

/-- The 64-bit cases, which check no range. -/
def handleInt64 (convert : CString → Conversion) (make : Int → GValue) (str : CString) :
    FromString :=
  let conversion := convert str
  if conversion.value = 0 ∧ conversion.erange = true then .refused
  else if str = [] ∨ conversion.endptr ≠ [] then .refused
  else .parsed (make conversion.value)

def handleFloating (host : Host) (check : UInt64 → Bool) (make : UInt64 → GValue)
    (str : CString) : FromString :=
  let (dval, endptr, erange) := host.strtod str
  if GValue.doubleEqual dval 0 ∧ erange = true then .refused
  else if str = [] ∨ endptr ≠ [] then .refused
  else if check dval = true then .refused
  else .parsed (make dval)

def handleBoolean (str : CString) : FromString :=
  if str = "true".toList then .parsed (.boolean true)
  else if str = "false".toList then .parsed (.boolean false)
  else .refused

/-- A string conversion applied to a string that may be NULL. -/
def onString (str : Option CString) (convert : CString → FromString) : FromString :=
  match str with
  | none => .fault
  | some str => convert str

/-- `_esconf_gvalue_from_string` on a value initialised with the given type. -/
def gvalueFromString (host : Host) (type : GType) (str : Option CString) : FromString :=
  match type with
  | .string => .parsed (.string str)
  | .uchar => onString str (realHandleInt strtoul 0 255 fun n => .uchar (.ofInt n))
  | .char => onString str (realHandleInt strtol (-128) 127 fun n => .char (.ofInt n))
  | .uint => onString str (realHandleInt strtoul 0 4294967295 fun n => .uint (.ofInt n))
  | .int => onString str (realHandleInt strtol (-2147483648) 2147483647 fun n => .int (.ofInt n))
  | .uint64 => onString str (handleInt64 strtoul fun n => .uint64 (.ofInt n))
  | .int64 => onString str (handleInt64 strtol fun n => .int64 (.ofInt n))
  | .float =>
    onString str (handleFloating host host.outsideFloat fun d => .float (host.floatOfDouble d))
  | .double => onString str (handleFloating host (fun _ => false) .double)
  | .boolean => onString str handleBoolean
  | .uint16 => onString str (realHandleInt strtol 0 65535 fun n => .uint16 (.ofInt n))
  | .int16 => onString str (realHandleInt strtol (-32768) 32767 fun n => .int16 (.ofInt n))
  | .ptrArray => .parsed (.ptrArray [])
  | _ => .refused

/-- `_esconf_string_from_gvalue`; NULL for a value it has no case for. -/
def stringFromGvalue (host : Host) : GValue → Option CString
  | .string text => text
  | .uchar n => some (printNat n.toNat)
  | .char n => some (printInt n.toInt)
  | .uint n => some (printNat n.toNat)
  | .int n => some (printInt n.toInt)
  | .uint64 n => some (printNat n.toNat)
  | .int64 n => some (printInt n.toInt)
  | .float bits => some (host.printDouble (host.doubleOfFloat bits))
  | .double bits => some (host.printDouble bits)
  | .boolean b => some (if b then "true".toList else "false".toList)
  | .uint16 n => some (printNat n.toNat)
  | .int16 n => some (printInt n.toInt)
  | _ => none

end Esconf
