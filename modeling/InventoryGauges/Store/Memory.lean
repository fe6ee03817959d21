import InventoryGauges.Store.Call
import InventoryGauges.Text.Map

/-!
# Stores in memory

The contents of a store as a finite map, and what each call does to it when it
succeeds.
-/

namespace InventoryGauges
namespace Store

/-- The contents of a store. -/
abbrev Contents : Type := Text.Map String

/-- What a call gives and leaves when it succeeds. -/
def perform : (call : Call) → Contents → call.Value × Contents
  | .get key, contents => (contents.get? key, contents)
  | .getMany keys, contents => (keys.map contents.get?, contents)
  | .set key value, contents => ((), contents.insert key value)
  | .delete keys, contents => ((), contents.eraseAll keys)
  | .scan start, contents =>
      (contents.keys.filter fun key => start.toList.isPrefixOf key.toList, contents)
  | .ping, contents => ((), contents)

/-- The answer of a store that never fails. -/
def answer (call : Call) (contents : Contents) : call.Answer × Contents :=
  (.ok (perform call contents).1, (perform call contents).2)

end Store
end InventoryGauges
