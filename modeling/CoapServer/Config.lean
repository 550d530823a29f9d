import CoapServer.Basic

/-! # The configuration of resources

What the server reads of its configuration once it is parsed: a resource with its methods, and the
directory of the log files. -/

namespace CoapServer.Config

open CoapServer.Basic

/-- `ResourceMethodType`. -/
inductive ResourceMethodType where
  | none
  | get
  | post
  | put
  | delete
  | fetch
  | patch
  | ipatch
  deriving DecidableEq, Repr

/-- `ResourceMethodConfig`. -/
structure ResourceMethodConfig where
  type : ResourceMethodType := .none
  format : List Str := []
  printValue : Bool := false
  logValue : Bool := false
  store : Bool := false
  cmd : Str := []
  cmdStdin : Bool := false
  cmdTimeout : ℕ := 500
  cmdLogInput : Bool := false
  deriving DecidableEq, Repr

/-- `ResourceConfig`. -/
structure ResourceConfig where
  resourceName : Str := []
  resourcePath : Str := []
  logFile : Str := []
  initialValue : Str := []
  dataFile : Str := []
  maxAge : ℕ := 3600
  observable : Bool := false
  dynamic : Bool := false
  methods : List ResourceMethodConfig := []
  deriving DecidableEq, Repr

/-- `ResourceMethod::methStringify`. -/
def methStringify : ResourceMethodType → Str
  | .none => str "None"
  | .get => str "GET"
  | .post => str "POST"
  | .put => str "PUT"
  | .delete => str "DELETE"
  | .fetch => str "FETCH"
  | .patch => str "PATCH"
  | .ipatch => str "iPATCH"

end CoapServer.Config
