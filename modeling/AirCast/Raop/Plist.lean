import AirCast.Http.HttpResponse

/-! # Property lists

The nodes of libplist as the RTSP handlers look at them.  A `plist_t` that may be NULL
is an `Option`; the getters of numbers and truth values assert that the node has their
type. -/

set_option autoImplicit false

namespace AirCast.Raop

open AirCast.Http

/-- A node, of one of the types the handlers tell apart. -/
inductive Plist where
  | boolean (boolval : Bool)
  | uint (intval : ℕ)
  | data (buff : Bytes)
  | array (items : List Plist)
  | dict (entries : List (CString × Plist))
  /-- any other type -/
  | other

namespace Plist

def dictGetSize : Option Plist → ℕ
  | some (.dict entries) => entries.length
  | _ => 0

/-- `plist_dict_get_item`: the first entry with the key. -/
def dictGetItem (key : CString) : Option Plist → Option Plist
  | some (.dict entries) => (entries.find? fun entry => decide (entry.1 = key)).map Prod.snd
  | _ => none

/-- The items `plist_array_get_item` returns for the indices below `plist_array_get_size`. -/
def arrayItems : Option Plist → List Plist
  | some (.array items) => items
  | _ => []

/-- `plist_get_data_val`; NULL where the node holds no data. -/
def getDataVal : Option Plist → Option Bytes
  | some (.data buff) => some buff
  | _ => none

def getUintVal : Option Plist → Except Fault ℕ
  | some (.uint intval) => .ok intval
  | _ => .error .assertion

def getBoolVal : Option Plist → Except Fault Bool
  | some (.boolean boolval) => .ok boolval
  | _ => .error .assertion

end Plist

end AirCast.Raop
