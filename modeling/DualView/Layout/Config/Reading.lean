import DualView.Datum
import DualView.Layout.Config

/-!
# Configurations as data trees

A configuration is written as a map with up to three members, or as a list of them in order.  The
members are `maybe_layouts`, `type_symbols` and `field_symbols`; one that is missing is empty, and
members of other names are passed over.
-/

namespace DualView.Config

/-- Each entry of a map, read by `read?`. -/
def readTable? {α : Type} (read? : Datum → Option α) : Datum → Option (Table α)
  | .map entries =>
    entries.foldlM (fun t (name, d) => (t.set name ·) <$> read? d) Table.empty
  | _ => none

/-- A layout is its name, or a map from its name to null. -/
def readLayout? : Datum → Option Layout
  | .scalar (.string name) => Layout.ofName? name
  | .map [(name, .null)] => Layout.ofName? name
  | _ => none

/-- What `read?` makes of a member, or the empty table where it is missing. -/
def readMember? {α : Type} (read? : Datum → Option α) : Option Datum → Option (Table α)
  | none => some .empty
  | some d => readTable? read? d

/-- The configuration with the given members. -/
def ofMembers? (maybeLayouts typeSymbols fieldSymbols : Option Datum) : Option Config := do
  return ⟨← readMember? readLayout? maybeLayouts, ← readMember? Datum.text? typeSymbols,
    ← readMember? (readTable? Datum.text?) fieldSymbols⟩

/-- The configuration that a data tree writes. -/
def ofDatum? : Datum → Option Config
  | .map entries =>
    ofMembers? (entries.lookup "maybe_layouts") (entries.lookup "type_symbols")
      (entries.lookup "field_symbols")
  | .list items =>
    if items.length ≤ 3 then ofMembers? items[0]? items[1]? items[2]? else none
  | _ => none

/-- The layouts of a configuration as a data tree. -/
def layoutsDatum (t : Table Layout) : Datum :=
  .map (t.entries.map fun (name, layout) => (name, .scalar (.string layout.name)))

/-- The symbols of a configuration as a data tree. -/
def symbolsDatum (t : Table String) : Datum :=
  .map (t.entries.map fun (name, symbol) => (name, .scalar (.string symbol)))

/-- The data tree that writes a configuration. -/
def toDatum (c : Config) : Datum :=
  .map [
    ("maybe_layouts", layoutsDatum c.maybeLayouts),
    ("type_symbols", symbolsDatum c.typeSymbols),
    ("field_symbols",
      .map (c.fieldSymbols.entries.map fun (name, t) => (name, symbolsDatum t)))]

end DualView.Config
