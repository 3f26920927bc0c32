import DeferredTyping.Catalog.Members
import DeferredTyping.Method.Overload

/-!
# Finding the method of a call

A class offers its learned overloads first and then what the catalogue knows
of it.  A call looks at its receiver type, then at the superclass, and so on
up the chain; the first class that offers anything decides.
-/

namespace DeferredTyping

/-- The answer to a call: a method, none, or the class on which it is
ambiguous. -/
abbrev LookupResult := Except Ty (Option MethodType)

/-- What is known of methods: the catalogue and the learned ones. -/
structure Members where
  catalog : Catalog
  methods : MethodTable

namespace Members

/-- The method that a class itself offers for a call.  No superclass is
searched. -/
def declared (members : Members) (name : String) (arguments : List Ty)
    (definingClass : Ty) : LookupResult :=
  match Overloads.select members.catalog.isParent
      (members.methods.overloads definingClass name) arguments with
  | .found method => .ok (some method)
  | .ambiguous => .error definingClass
  | .absent =>
      .ok ((members.catalog.methodType? definingClass name arguments).map
        fun returnType =>
          { definingClass, name, parameters := arguments, returnType })

/-- The answer of the first class that does not answer `none`. -/
def firstOffer (offer : Ty → LookupResult) : List Ty → LookupResult
  | [] => .ok none
  | candidate :: rest =>
      match offer candidate with
      | .ok none => firstOffer offer rest
      | answer => answer

/-- The method that a call on a receiver means. -/
def find (members : Members) (receiver : Ty) (name : String)
    (arguments : List Ty) : LookupResult :=
  firstOffer (members.declared name arguments)
    (members.catalog.superclassChain receiver)

/-- The constructor that a class offers.  Constructors are not inherited. -/
def findConstructor (members : Members) (definingClass : Ty)
    (arguments : List Ty) : LookupResult :=
  members.declared "initialize" arguments definingClass

end Members

end DeferredTyping
