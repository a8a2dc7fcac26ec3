import BlockCompiler.Json.Basic

/-!
Comparing JSON values. Truth values compare as numbers, texts by their characters and lists by their first
difference. No other values of different kinds are alike, and none of them has an order.
-/

namespace BlockCompiler.Json

/-- Whether two values are the same number, where all NaNs are. -/
def sameNumber (a b : Json) : Bool :=
  match a.asNumber?, b.asNumber? with
  | some a, some b => a.same b
  | _, _ => false

mutual

/-- Whether two values are alike. The order of the members of an object does not matter. -/
def same : Json → Json → Bool
  | .null, .null => true
  | .text a, .text b => a = b
  | .list a, .list b => sameItems a b
  | .object a, .object b => a.length = b.length && sameMembers a b
  | a, b => sameNumber a b

/-- Whether two lists have like items in the same order. -/
def sameItems : List Json → List Json → Bool
  | [], [] => true
  | a :: as, b :: bs => same a b && sameItems as bs
  | _, _ => false

/-- Whether members have like values in another object. -/
def sameMembers : List (String × Json) → List (String × Json) → Bool
  | [], _ => true
  | (key, a) :: rest, members => (Table.get? members key).any (same a) && sameMembers rest members

end

mutual

/-- Whether one value is less than another, if the two have an order. -/
def less? : Json → Json → Option Bool
  | .text a, .text b => some (decide (a < b))
  | .list a, .list b => lessItems? a b
  | a, b => do return (← a.asNumber?).lt (← b.asNumber?)

/-- Whether a list is less than another: by the first items that differ, or because it is a part of the
other one. -/
def lessItems? : List Json → List Json → Option Bool
  | a :: as, b :: bs => if same a b then lessItems? as bs else less? a b
  | [], _ :: _ => some true
  | _, [] => some false

end

end BlockCompiler.Json
