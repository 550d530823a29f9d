import CoapServer.Lib.Erasure
import CoapServer.Server.Startup

/-! # The steps of `init`

`init` resolves the address, makes the context of the library, sets up the security, makes the
endpoint and attaches the resources. `resolveAddress` returns zero for no address, and the code of
`getaddrinfo` for an error, which is not zero and so taken for a success; and the security is set up
whatever became of the context. `init` stops at the first failure if and only if neither matters
(`stops_iff_clean`). -/

namespace CoapServer.Server.Initialise

open CoapServer.Basic CoapServer.Config CoapServer.Lib.Frame CoapServer.Lib.Erasure
open CoapServer.Parse.Constructors CoapServer.Resources.Object CoapServer.Server.World
open CoapServer.Server.Requests CoapServer.Server.Dynamic CoapServer.Server.Startup
open CoapServer.Server.Dispatch (dynamicServer)

/-! ### What the calls answer -/

/-- The families of addresses. -/
inductive Family where
  | inet
  | inet6
  | other
  deriving DecidableEq

/-- `addrinfo`: an address is not empty. -/
structure AddrInfo where
  family : Family
  addr : Str
  nonempty : addr ≠ []

/-- **What the platform and the library answer** while the server starts: `getaddrinfo` the code of
an error or the addresses, `stat` by the number of the call if the file is there, and each other call
if it succeeds. -/
structure Platform where
  getaddrinfo : Str → Str → Except { code : ℤ // code ≠ 0 } (List AddrInfo)
  gaiStrerror : ℤ → Str
  newContext : Bool
  malloc : Bool
  stat : ℕ → Str → Bool
  contextSetPki : Bool
  newEndpoint : Bool

/-- **A call that gets the context**: if it is not null, and what else comes from an earlier step. -/
inductive LibCall where
  | setPki (ctx : Bool)
  | newEndpoint (ctx : Bool) (addr : Option AddrInfo) (protocol : EndpointTransport)
  | attach (ctx : Bool) (i : ℕ)
  | addUnknown (ctx : Bool)
  | setBlockMode (ctx : Bool)
  | ignoreOptions (ctx : Bool)

/-- If the context is not null. -/
def LibCall.ctx : LibCall → Bool
  | .setPki ctx | .newEndpoint ctx _ _ | .attach ctx _ | .addUnknown ctx | .setBlockMode ctx
  | .ignoreOptions ctx => ctx

/-- What `init` works on beside the server: if `ctx` is not null, what `addr` was set to, the calls
that got the context, and what the helpers write to `std::cerr`. -/
structure Setup where
  ctx : Bool
  addr : Option AddrInfo
  calls : List LibCall
  err : List Str

abbrev SetupM := EStateM Failure Setup

/-- A call with the context. -/
def call (f : Setup → LibCall) : SetupM Unit := modify fun s => { s with calls := s.calls ++ [f s] }

/-- A line that a helper writes to `std::cerr`. -/
def complain (line : Str) : SetupM Unit := modify fun s => { s with err := s.err ++ [line] }

/-! ### The helpers -/

/-- The first address of the list that is used. -/
def firstInet (res : List AddrInfo) : Option AddrInfo :=
  res.find? fun ainfo => ainfo.family = .inet ∨ ainfo.family = .inet6

/-- **`CoAPServer::resolveAddress`.** -/
def resolveAddress (p : Platform) (host service : Str) : SetupM ℤ := do
  modify fun s => { s with addr := none }
  match p.getaddrinfo (cStr host) (cStr service) with
  | .error error =>
    complain (str "getaddrinfo: " ++ p.gaiStrerror error.val)
    return error.val
  | .ok res =>
    modify fun s => { s with addr := firstInet res }
    return ((firstInet res).elim 0 fun ainfo => ainfo.addr.length : ℕ)

/-- A file that is missing. -/
def missing (what path : Str) : Str :=
  str "ERROR: " ++ what ++ str " [" ++ cStr path ++ str "] does not exist"

/-- **`CoAPServer::setupSecurity`**, which asks for the key a second time instead of the certificate
authority. -/
def setupSecurity (p : Platform) (e : EndpointConfig) : SetupM ℤ := do
  if e.key = [] then
    complain (str "ERROR: Security requested, but no key provided")
    return -1
  if e.cert = [] then
    complain (str "ERROR: Security requested, but no certificate provided")
    return -1
  if p.malloc = false then
    complain (str "ERROR: Could not allocate memory for DTLS structures")
    return -1
  if p.stat 0 (cStr e.cert) = false then
    complain (missing (str "Server certificate") e.cert)
    return -1
  if p.stat 1 (cStr e.key) = false then
    complain (missing (str "Server key") e.key)
    return -1
  if p.stat 2 (cStr e.key) = false then
    complain (missing (str "Certificate authority") e.ca)
    return -1
  call fun s => .setPki s.ctx
  if p.contextSetPki = false then
    complain (str "ERROR: Could not set CoAP context PKI")
    return -1
  return 0

/-! ### `init` -/

variable {κ : Type}

/-- A call of `init`. -/
abbrev InitM (κ : Type) := EStateM Failure (Setup × CoAPServer κ)

/-- A helper, which leaves the server. -/
def aside {β : Type} (m : SetupM β) : InitM κ β := fun s =>
  match m.run s.1 with
  | .ok b t => .ok b (t, s.2)
  | .error e t => .error e (t, s.2)

section Init
variable (p : Platform) (e : EndpointConfig)

/-- The address and the context. -/
def openContext : InitM κ ℤ := do
  if (← aside (resolveAddress p e.address e.port)) = 0 then
    beside (writeErr [str "ERROR: Failed to resolve address."])
    return 1
  aside (modify fun s => { s with ctx := p.newContext })
  if p.newContext = false then
    beside (writeErr [str "ERROR: Could not create CoAP context."])
    return 1
  return 0

/-- The transport needs security. -/
def Secure : Prop := e.transport = .dtls ∨ e.transport = .tls

instance : Decidable (Secure e) := by
  unfold Secure
  infer_instance

/-- The security, which is set up also after a failure. -/
def secure (ret : ℤ) : InitM κ ℤ := do
  if Secure e then
    if (← aside (setupSecurity p e)) ≠ 0 then
      beside (writeErr [str "ERROR: Could not set up security."])
      return 1
  return ret

/-- A step that is left out after a failure. -/
def unlessFailed (ret : ℤ) (m : InitM κ ℤ) : InitM κ ℤ := if ret = 0 then m else pure ret

/-- The endpoint. -/
def addEndpoint : InitM κ ℤ := do
  aside (call fun s => .newEndpoint s.ctx s.addr e.transport)
  if p.newEndpoint = false then
    beside (writeErr [str "ERROR: Could not add CoAP endpoint."])
    return 1
  return 0

/-- The loop over the resources. -/
def attachEach : List ℕ → InitM κ ℤ
  | [] => return 0
  | i :: is => do
    let r ← beside (getResource i)
    aside (call fun s => .attach s.ctx i)
    let (ret, r) ← beside (attach i r)
    beside (modify fun w => { w with resources := w.resources.set i r })
    if ret ≠ 0 then return 1 else attachEach is

/-- The modes of the context. -/
def setModes : InitM κ ℤ := do
  aside (call fun s => .setBlockMode s.ctx)
  aside (call fun s => .ignoreOptions s.ctx)
  return 0

/-- The handler for unknown resources, and the modes. -/
def finish : InitM κ ℤ := do
  if (← get).2.dynamicResources ≠ [] then
    aside (call fun s => .addUnknown s.ctx)
  setModes

/-- The resources. -/
def attachResources : InitM κ ℤ := do attachEach (List.range (← get).2.resources.length)

/-- The steps that are left out after a failure. -/
def connect (ret : ℤ) : InitM κ ℤ := do
  let ret ← unlessFailed ret (addEndpoint p e)
  let ret ← unlessFailed ret attachResources
  unlessFailed ret finish

/-- The first line. -/
def bindingLine : Str := str "Binding to " ++ e.address ++ str ":" ++ e.port

/-- **`CoAPServer::init`**, call by call. -/
def init : InitM κ ℤ := do
  beside (writeErr [bindingLine e])
  let ret ← openContext p e
  let ret ← secure p e ret
  connect p e ret

end Init

/-- Before `init` the context is null. -/
def fresh : Setup := { ctx := false, addr := none, calls := [], err := [] }

/-! ### What fails -/

section Outcome
variable (p : Platform) (e : EndpointConfig)

/-- `getaddrinfo` returns an error. -/
def GaiFails : Prop := ∃ error, p.getaddrinfo (cStr e.address) (cStr e.port) = .error error

/-- **The address is resolved**: `getaddrinfo` finds one that can be used. -/
def Resolves : Prop := ∃ res, p.getaddrinfo (cStr e.address) (cStr e.port) = .ok res ∧
  ∃ ainfo ∈ res, ainfo.family = .inet ∨ ainfo.family = .inet6

/-- The security is set up as far as the call that gets the context. -/
def Reaches : Prop := e.key ≠ [] ∧ e.cert ≠ [] ∧ p.malloc = true ∧ p.stat 0 (cStr e.cert) = true ∧
  p.stat 1 (cStr e.key) = true ∧ p.stat 2 (cStr e.key) = true

instance : Decidable (Reaches p e) := by
  unfold Reaches
  infer_instance

/-- **The security can be set up.** -/
def SecurityOk : Prop := Reaches p e ∧ p.contextSetPki = true

instance : Decidable (SecurityOk p e) := by
  unfold SecurityOk
  infer_instance

/-- **There is a context**: `coap_new_context` is called, and succeeds. -/
def HasContext : Prop := (GaiFails p e ∨ Resolves p e) ∧ p.newContext = true

/-- The resources can all be attached. -/
def AllAttach (w : CoAPServer κ) : Prop :=
  ∃ err w', Dynamic.init.run { w with stderr := err } = .ok 0 w'

/-- **`init` stops at the first failure**: it only returns `0` if every step succeeded, no call gets a
null context, and the endpoint is only made for an address that was resolved. -/
structure Stops (w : CoAPServer κ) : Prop where
  succeeds : ∀ t, (init p e).run (fresh, w) = .ok 0 t → Resolves p e ∧ p.newContext = true ∧
    (Secure e → SecurityOk p e) ∧ p.newEndpoint = true ∧ AllAttach w
  context : ∀ c ∈ (final ((init p e).run (fresh, w))).1.calls, c.ctx = true
  inputs : ∀ ctx addr protocol,
    .newEndpoint ctx addr protocol ∈ (final ((init p e).run (fresh, w))).1.calls → addr ≠ none

/-- **No failure matters**: where `getaddrinfo` fails, so does the context or the security, and where
the security gets as far as the context there is one. -/
structure Clean : Prop where
  resolved : GaiFails p e → p.newContext = true → ¬ (Secure e → SecurityOk p e)
  context : Secure e → Reaches p e → HasContext p e

end Outcome

/-! ### The helpers -/

section Helpers
variable {p : Platform} {e : EndpointConfig}

/-- What `resolveAddress` returns. -/
def resolveCode (p : Platform) (e : EndpointConfig) : ℤ :=
  match p.getaddrinfo (cStr e.address) (cStr e.port) with
  | .error error => error.val
  | .ok res => ((firstInet res).elim 0 fun ainfo => ainfo.addr.length : ℕ)

/-- What it sets the address to. -/
def resolved (p : Platform) (e : EndpointConfig) : Option AddrInfo :=
  match p.getaddrinfo (cStr e.address) (cStr e.port) with
  | .error _ => none
  | .ok res => firstInet res

theorem resolveAddress_run (s : Setup) : ∃ err, (resolveAddress p e.address e.port).run s =
    .ok (resolveCode p e) { s with addr := resolved p e, err := err } := by
  unfold resolveAddress resolveCode resolved
  cases p.getaddrinfo (cStr e.address) (cStr e.port) with
  | error error => exact ⟨_, rfl⟩
  | ok res => exact ⟨_, rfl⟩

theorem firstInet_isSome_iff {res : List AddrInfo} : (∃ ainfo, firstInet res = some ainfo) ↔
    ∃ ainfo ∈ res, ainfo.family = .inet ∨ ainfo.family = .inet6 := by
  rw [← Option.isSome_iff_exists, firstInet, List.find?_isSome]
  simp only [decide_eq_true_eq]

/-- **An error of `getaddrinfo` passes** as an address. -/
theorem resolveCode_ne_zero_iff : resolveCode p e ≠ 0 ↔ GaiFails p e ∨ Resolves p e := by
  unfold resolveCode GaiFails Resolves
  cases p.getaddrinfo (cStr e.address) (cStr e.port) with
  | error error => exact iff_of_true error.property (Or.inl ⟨error, rfl⟩)
  | ok res =>
    simp only [reduceCtorEq, exists_false, false_or, Except.ok.injEq, exists_eq_left',
      ← firstInet_isSome_iff]
    cases firstInet res with
    | none => simp
    | some ainfo =>
      have hlen : ainfo.addr.length ≠ 0 := fun h => ainfo.nonempty (List.length_eq_zero_iff.mp h)
      simpa using ainfo.nonempty

theorem resolved_ne_none_iff : resolved p e ≠ none ↔ Resolves p e := by
  unfold resolved Resolves
  cases p.getaddrinfo (cStr e.address) (cStr e.port) with
  | error error => simp
  | ok res =>
    rw [Option.ne_none_iff_exists']
    simp only [Except.ok.injEq, exists_eq_left', firstInet_isSome_iff]

/-- **What setting up the security does**: it gives the context to the call that it reaches, and
returns if all went well. -/
def SetsUp (p : Platform) (e : EndpointConfig) (s : Setup) (m : SetupM ℤ) : Prop :=
  ∃ err, m.run s = .ok (if SecurityOk p e then 0 else -1) { s with
    calls := s.calls ++ if Reaches p e then [.setPki s.ctx] else []
    err := err }

/-- A check, and what comes after it. -/
theorem SetsUp.check {s : Setup} {c : Prop} [Decidable c] {line : Str} {m : SetupM ℤ}
    (hfails : c → ¬ Reaches p e) (hrest : ¬ c → SetsUp p e s m) :
    SetsUp p e s (if c then (do complain line; return -1) else m) := by
  by_cases hc : c
  · have hnot := hfails hc
    rw [if_pos hc, SetsUp, if_neg hnot, if_neg fun h => hnot h.1, List.append_nil]
    exact ⟨_, rfl⟩
  · rw [if_neg hc]
    exact hrest hc

theorem setupSecurity_run (s : Setup) : SetsUp p e s (setupSecurity p e) := by
  have hfalse : ∀ {b : Bool}, b = false → b ≠ true := by
    rintro b rfl
    exact Bool.false_ne_true
  refine SetsUp.check (fun hkey h => h.1 hkey) fun hkey => ?_
  refine SetsUp.check (fun hcert h => h.2.1 hcert) fun hcert => ?_
  refine SetsUp.check (fun hmalloc h => hfalse hmalloc h.2.2.1) fun hmalloc => ?_
  refine SetsUp.check (fun hstat h => hfalse hstat h.2.2.2.1) fun hstat₀ => ?_
  refine SetsUp.check (fun hstat h => hfalse hstat h.2.2.2.2.1) fun hstat₁ => ?_
  refine SetsUp.check (fun hstat h => hfalse hstat h.2.2.2.2.2) fun hstat₂ => ?_
  rw [Bool.not_eq_false] at hmalloc hstat₀ hstat₁ hstat₂
  have hreaches : Reaches p e := ⟨hkey, hcert, hmalloc, hstat₀, hstat₁, hstat₂⟩
  rw [SetsUp, if_pos hreaches]
  by_cases hpki : p.contextSetPki = false
  · rw [if_pos hpki, if_neg fun h => hfalse hpki h.2]
    exact ⟨_, rfl⟩
  · rw [if_neg hpki, if_pos ⟨hreaches, Bool.not_eq_false _ ▸ hpki⟩]
    exact ⟨_, rfl⟩

end Helpers

/-! ### The steps of `init` -/

section Steps
variable {p : Platform} {e : EndpointConfig} {s : Setup} {w : CoAPServer κ}

theorem aside_run {β : Type} {m : SetupM β} {b : β} {s' : Setup} (h : m.run s = .ok b s') :
    (aside m : InitM κ β).run (s, w) = .ok b (s', w) := by
  simp only [aside, EStateM.run] at h ⊢
  rw [h]

/-- What is written for the address and the context. -/
def openErr (p : Platform) (e : EndpointConfig) : List Str :=
  if resolveCode p e = 0 then [str "ERROR: Failed to resolve address."]
  else if p.newContext = false then [str "ERROR: Could not create CoAP context."] else []

/-- What is written for the security. -/
def securityErr (p : Platform) (e : EndpointConfig) : List Str :=
  if Secure e ∧ ¬ SecurityOk p e then [str "ERROR: Could not set up security."] else []

theorem openErr_eq_nil_iff : openErr p e = [] ↔ HasContext p e := by
  unfold openErr HasContext
  rw [← resolveCode_ne_zero_iff]
  split_ifs with hcode hnew
  · simp [hcode]
  · simp [hnew]
  · simp [hcode, hnew]

theorem securityErr_eq_nil_iff : securityErr p e = [] ↔ (Secure e → SecurityOk p e) := by
  unfold securityErr
  split_ifs with h
  · exact iff_of_false id fun hok => h.2 (hok h.1)
  · exact iff_of_true rfl fun hsecure => not_not.mp fun hok => h ⟨hsecure, hok⟩

/-- **The address and the context.** -/
theorem openContext_run (hs : s.ctx = false) : ∃ ctx err,
    (openContext p e : InitM κ ℤ).run (s, w) = .ok (if openErr p e = [] then 0 else 1)
      ({ s with ctx := ctx, addr := resolved p e, err := err },
        { w with stderr := w.stderr ++ openErr p e }) ∧
    (ctx = true ↔ HasContext p e) := by
  obtain ⟨err, hrun⟩ := resolveAddress_run (p := p) (e := e) s
  have haddr := aside_run (w := w) hrun
  unfold openContext
  rw [run_bind_eq haddr, ← openErr_eq_nil_iff, openErr]
  by_cases hcode : resolveCode p e = 0
  · refine ⟨false, err, ?_, by simp [hcode]⟩
    rw [if_pos hcode, if_pos hcode, ← hs]
    rfl
  · refine ⟨p.newContext, err, ?_, by cases p.newContext <;> simp [hcode]⟩
    rw [if_neg hcode, if_neg hcode]
    cases p.newContext with
    | false => rfl
    | true =>
      simp only [Bool.true_eq_false, if_false, if_true, List.append_nil]
      rfl

/-- **The security.** -/
theorem secure_run (ret : ℤ) : ∃ err, (secure p e ret : InitM κ ℤ).run (s, w) =
    .ok (if securityErr p e = [] then ret else 1) ({ s with
      calls := s.calls ++ if Secure e ∧ Reaches p e then [.setPki s.ctx] else []
      err := err }, { w with stderr := w.stderr ++ securityErr p e }) := by
  unfold secure securityErr
  by_cases hsecure : Secure e
  · obtain ⟨err, hrun⟩ := setupSecurity_run (p := p) (e := e) s
    have hsetup := aside_run (w := w) hrun
    refine ⟨err, ?_⟩
    rw [if_pos hsecure, run_bind_eq hsetup]
    by_cases hok : SecurityOk p e
    · simp only [hsecure, hok, not_true_eq_false, and_false, true_and, if_false, if_true, ne_eq,
        List.append_nil, EStateM.run_pure]
    · simp only [hsecure, hok, not_false_eq_true, and_self, true_and, if_false, if_true, ne_eq,
        List.cons_ne_nil, show ¬ (-1 : ℤ) = 0 by decide]
      rfl
  · refine ⟨s.err, ?_⟩
    rw [if_neg hsecure]
    simp only [hsecure, false_and, if_false, if_true, List.append_nil, EStateM.run_pure]

end Steps

/-! ### The calls that follow -/

/-- The context stays, and the calls made get it; none of them makes the endpoint. -/
structure Appends (x y : Setup × CoAPServer κ) : Prop where
  ctx : y.1.ctx = x.1.ctx
  calls : ∃ tail, y.1.calls = x.1.calls ++ tail ∧
    ∀ c ∈ tail, c.ctx = x.1.ctx ∧ ∀ ctx addr protocol, c ≠ .newEndpoint ctx addr protocol

theorem Appends.refl (x : Setup × CoAPServer κ) : Appends x x := ⟨rfl, [], by simp, by simp⟩

theorem Appends.trans {x y z : Setup × CoAPServer κ} (h : Appends x y) (h' : Appends y z) :
    Appends x z := by
  obtain ⟨hctx, tail, hcalls, htail⟩ := h
  obtain ⟨hctx', tail', hcalls', htail'⟩ := h'
  refine ⟨hctx'.trans hctx, tail ++ tail', by rw [hcalls', hcalls, List.append_assoc], ?_⟩
  intro c hc
  rcases List.mem_append.mp hc with hc | hc
  · exact htail c hc
  · rw [← hctx]
    exact htail' c hc

theorem appends_beside {β : Type} (m : ServerM κ β) : Moves Appends (beside m : InitM κ β) := by
  rintro ⟨s, w⟩
  simp only [beside, EStateM.run]
  cases m w with
  | ok b w' => exact ⟨rfl, [], by simp [final], by simp⟩
  | error e w' => exact ⟨rfl, [], by simp [final], by simp⟩

theorem appends_call {f : Setup → LibCall}
    (hf : ∀ s, (f s).ctx = s.ctx ∧ ∀ ctx addr protocol, f s ≠ .newEndpoint ctx addr protocol) :
    Moves Appends (aside (call f) : InitM κ Unit) := by
  rintro ⟨s, w⟩
  refine ⟨rfl, [f s], rfl, fun c hc => ?_⟩
  rw [List.mem_singleton.mp hc]
  exact hf s

theorem appends_attachEach (is : List ℕ) : Moves Appends (attachEach is : InitM κ ℤ) := by
  induction is with
  | nil => exact Moves.pure Appends.refl _
  | cons i is ih =>
    refine Moves.bind Appends.trans (appends_beside _) fun r => ?_
    refine Moves.bind Appends.trans (appends_call fun _ => ⟨rfl, by simp⟩) fun _ => ?_
    refine Moves.bind Appends.trans (appends_beside _) fun x => ?_
    refine Moves.bind Appends.trans (appends_beside _) fun _ => ?_
    exact Moves.ite (Moves.pure Appends.refl _) ih

theorem appends_attachResources : Moves Appends (attachResources : InitM κ ℤ) :=
  Moves.bind Appends.trans (Moves.get Appends.refl) fun _ => appends_attachEach _

theorem appends_finish : Moves Appends (finish : InitM κ ℤ) := by
  have hmodes : Moves Appends (setModes : InitM κ ℤ) :=
    Moves.bind Appends.trans (appends_call fun _ => ⟨rfl, by simp⟩) fun _ =>
      Moves.bind Appends.trans (appends_call fun _ => ⟨rfl, by simp⟩) fun _ =>
        Moves.pure Appends.refl _
  refine Moves.bind Appends.trans (Moves.get Appends.refl) fun _ => Moves.ite ?_ hmodes
  exact Moves.bind Appends.trans (appends_call fun _ => ⟨rfl, by simp⟩) fun _ => hmodes

theorem erases_call (f : Setup → LibCall) :
    Erases Prod.snd (aside (call f) : InitM κ Unit) (pure ⟨⟩) := fun _ => rfl

/-- Attaching the resources does to the server what it does without the calls recorded. -/
theorem erases_attachEach (is : List ℕ) :
    Erases Prod.snd (attachEach is : InitM κ ℤ) (attachAll is) := by
  induction is with
  | nil => exact Erases.pure _
  | cons i is ih =>
    refine Erases.bind (erases_beside _) fun r => ?_
    refine (erases_call _).skip ?_
    refine Erases.bind (erases_beside _) fun x => ?_
    exact Erases.bind (erases_beside _) fun _ => Erases.ite (Erases.pure _) ih

/-- The resources are all attached where `attachResources` returns `0`. -/
theorem attachResources_ok {s : Setup} {w : CoAPServer κ} {t : Setup × CoAPServer κ}
    (h : (attachResources : InitM κ ℤ).run (s, w) = .ok 0 t) : Dynamic.init.run w = .ok 0 t.2 := by
  have herases := erases_attachEach (κ := κ) (List.range w.resources.length) (s, w)
  have hrun : (attachEach (List.range w.resources.length) : InitM κ ℤ).run (s, w) = .ok 0 t := h
  rw [hrun] at herases
  exact herases.symm

/-! ### When `init` stops -/

section Main
variable {p : Platform} {e : EndpointConfig} {s : Setup} {w : CoAPServer κ}

/-- After a failure nothing follows. -/
theorem connect_failed {ret : ℤ} (hret : ret ≠ 0) :
    (connect p e ret : InitM κ ℤ).run (s, w) = .ok ret (s, w) := by
  simp only [connect, unlessFailed, if_neg hret, pure_bind, EStateM.run_pure]

theorem addEndpoint_run : ∃ stderr, (addEndpoint p e : InitM κ ℤ).run (s, w) =
    .ok (if p.newEndpoint = false then 1 else 0)
      ({ s with calls := s.calls ++ [.newEndpoint s.ctx s.addr e.transport] },
        { w with stderr := stderr }) := by
  unfold addEndpoint
  cases p.newEndpoint with
  | false => exact ⟨w.stderr ++ [str "ERROR: Could not add CoAP endpoint."], rfl⟩
  | true => exact ⟨w.stderr, rfl⟩

/-- Without a failure the endpoint is made, and then only the context is used. -/
theorem connect_calls : ∃ tail,
    (final ((connect p e 0 : InitM κ ℤ).run (s, w))).1.calls =
      s.calls ++ .newEndpoint s.ctx s.addr e.transport :: tail ∧
    ∀ c ∈ tail, c.ctx = s.ctx ∧ ∀ ctx addr protocol, c ≠ .newEndpoint ctx addr protocol := by
  obtain ⟨stderr, hrun⟩ := addEndpoint_run (p := p) (e := e) (s := s) (w := w)
  have hskip : ∀ ret (m : InitM κ ℤ), Moves Appends m → Moves Appends (unlessFailed ret m) :=
    fun ret m hm => Moves.ite hm (Moves.pure Appends.refl _)
  have hrest : ∀ ret, Moves Appends (do
      let ret ← unlessFailed ret attachResources
      unlessFailed ret finish : InitM κ ℤ) := fun ret =>
    Moves.bind Appends.trans (hskip _ _ appends_attachResources) fun _ => hskip _ _ appends_finish
  have hconnect : (connect p e 0 : InitM κ ℤ).run (s, w) = _ := run_bind_eq hrun
  rw [hconnect]
  obtain ⟨tail, hcalls, htail⟩ := (hrest _ _).calls
  exact ⟨tail, by rw [hcalls, List.append_assoc, List.singleton_append], htail⟩

/-- Where it all returns `0`, the endpoint was made and the resources were attached. -/
theorem connect_ok {t : Setup × CoAPServer κ} (h : (connect p e 0).run (s, w) = .ok 0 t) :
    p.newEndpoint = true ∧ AllAttach w := by
  obtain ⟨stderr, hrun⟩ := addEndpoint_run (p := p) (e := e) (s := s) (w := w)
  have hconnect : (connect p e 0 : InitM κ ℤ).run (s, w) = _ := run_bind_eq hrun
  rw [hconnect] at h
  cases hnew : p.newEndpoint with
  | false =>
    rw [if_pos hnew] at h
    cases h
  | true =>
    rw [if_neg (by rw [hnew]; decide)] at h
    obtain ⟨ret, x, hattach, hfinish⟩ := run_bind_ok h
    refine ⟨rfl, stderr, x.2, ?_⟩
    by_cases hret : ret = 0
    · subst hret
      exact attachResources_ok hattach
    · rw [unlessFailed, if_neg hret] at hfinish
      exact absurd (EStateM.Result.ok.inj hfinish).1 hret

/-- What the steps before the endpoint return. -/
def frontCode (p : Platform) (e : EndpointConfig) : ℤ :=
  if openErr p e ++ securityErr p e = [] then 0 else 1

theorem frontCode_eq_zero_iff :
    frontCode p e = 0 ↔ HasContext p e ∧ (Secure e → SecurityOk p e) := by
  rw [← openErr_eq_nil_iff, ← securityErr_eq_nil_iff, ← List.append_eq_nil_iff, frontCode]
  split_ifs with h
  · exact iff_of_true rfl h
  · exact iff_of_false (by decide) h

/-- **What comes before the endpoint.** -/
theorem init_run (p : Platform) (e : EndpointConfig) (w : CoAPServer κ) : ∃ s : Setup,
    (init p e).run (fresh, w) = (connect p e (frontCode p e)).run
      (s, { w with stderr := w.stderr ++ [bindingLine e] ++ (openErr p e ++ securityErr p e) }) ∧
    (s.ctx = true ↔ HasContext p e) ∧ s.addr = resolved p e ∧
    s.calls = if Secure e ∧ Reaches p e then [.setPki s.ctx] else [] := by
  obtain ⟨ctx, err, hopen, hctx⟩ := openContext_run (p := p) (e := e) (s := fresh)
    (w := { w with stderr := w.stderr ++ [bindingLine e] }) rfl
  obtain ⟨err', hsecure⟩ := secure_run (p := p) (e := e)
    (s := { fresh with ctx := ctx, addr := resolved p e, err := err })
    (w := { w with stderr := w.stderr ++ [bindingLine e] ++ openErr p e })
    (if openErr p e = [] then 0 else 1)
  have hinit : (init p e).run (fresh, w) = _ := (run_bind_eq hopen).trans (run_bind_eq hsecure)
  have hcode : (if securityErr p e = [] then if openErr p e = [] then (0 : ℤ) else 1 else 1) =
      frontCode p e := by
    unfold frontCode
    by_cases hsec : securityErr p e = []
    · rw [if_pos hsec, hsec, List.append_nil]
    · rw [if_neg hsec, if_neg fun h => hsec (List.append_eq_nil_iff.mp h).2]
  rw [hcode, List.append_assoc _ (openErr p e)] at hinit
  exact ⟨_, hinit, hctx, rfl, rfl⟩

/-- `getaddrinfo` does not fail where it resolves the address. -/
theorem not_gaiFails (h : Resolves p e) : ¬ GaiFails p e := by
  rintro ⟨error, herror⟩
  obtain ⟨res, hres, -⟩ := h
  rw [herror] at hres
  cases hres

/-- **The calls of `init`**, by what fails. -/
theorem init_calls (p : Platform) (e : EndpointConfig) (w : CoAPServer κ) : ∃ ctx : Bool,
    (ctx = true ↔ HasContext p e) ∧
    (Secure e → Reaches p e → .setPki ctx ∈ (final ((init p e).run (fresh, w))).1.calls) ∧
    (HasContext p e → (Secure e → SecurityOk p e) →
      .newEndpoint ctx (resolved p e) e.transport ∈ (final ((init p e).run (fresh, w))).1.calls) ∧
    ∀ c ∈ (final ((init p e).run (fresh, w))).1.calls,
      c = .setPki ctx ∧ Secure e ∧ Reaches p e ∨
      HasContext p e ∧ (Secure e → SecurityOk p e) ∧ c.ctx = ctx ∧
        ∀ ctx' addr protocol, c = .newEndpoint ctx' addr protocol → addr = resolved p e := by
  obtain ⟨s, hinit, hctx, haddr, hcalls⟩ := init_run p e w
  have hsecure : ∀ c ∈ s.calls, c = .setPki s.ctx ∧ Secure e ∧ Reaches p e := by
    intro c hc
    rw [hcalls] at hc
    split_ifs at hc with h
    · exact ⟨List.mem_singleton.mp hc, h⟩
    · cases hc
  have hpki : Secure e → Reaches p e → .setPki s.ctx ∈ s.calls := by
    intro hsec hreaches
    rw [hcalls, if_pos ⟨hsec, hreaches⟩]
    exact List.mem_singleton_self _
  refine ⟨s.ctx, hctx, ?_⟩
  rw [hinit]
  by_cases h0 : frontCode p e = 0
  · obtain ⟨hcontext, hok⟩ := frontCode_eq_zero_iff.mp h0
    obtain ⟨tail, hall, htail⟩ := connect_calls (p := p) (e := e) (s := s) (w := { w with
      stderr := w.stderr ++ [bindingLine e] ++ (openErr p e ++ securityErr p e) })
    rw [h0, hall, ← haddr]
    refine ⟨fun hsec hreaches => List.mem_append_left _ (hpki hsec hreaches),
      fun _ _ => List.mem_append_right _ List.mem_cons_self, fun c hc => ?_⟩
    rcases List.mem_append.mp hc with hc | hc
    · exact Or.inl (hsecure c hc)
    · refine Or.inr ⟨hcontext, hok, ?_⟩
      rcases List.mem_cons.mp hc with rfl | hc
      · exact ⟨rfl, fun ctx' addr protocol h => (LibCall.newEndpoint.inj h).2.1.symm⟩
      · obtain ⟨hc, hnot⟩ := htail c hc
        exact ⟨hc, fun ctx' addr protocol h => absurd h (hnot _ _ _)⟩
  · rw [connect_failed h0]
    exact ⟨hpki, fun hcontext hok => absurd (frontCode_eq_zero_iff.mpr ⟨hcontext, hok⟩) h0,
      fun c hc => Or.inl (hsecure c hc)⟩

/-- **What an `init` that returns `0` has done.** -/
theorem init_ok {t : Setup × CoAPServer κ} (h : (init p e).run (fresh, w) = .ok 0 t) :
    HasContext p e ∧ (Secure e → SecurityOk p e) ∧ p.newEndpoint = true ∧ AllAttach w := by
  obtain ⟨s, hinit, -⟩ := init_run p e w
  rw [hinit] at h
  by_cases h0 : frontCode p e = 0
  · rw [h0] at h
    obtain ⟨hcontext, hok⟩ := frontCode_eq_zero_iff.mp h0
    obtain ⟨hnew, err, w', hattach⟩ := connect_ok h
    exact ⟨hcontext, hok, hnew, err, w', hattach⟩
  · rw [connect_failed h0] at h
    exact absurd (EStateM.Result.ok.inj h).1 h0

/-- **`init` stops at the first failure** if and only if no failure is passed over: an error of
`getaddrinfo` is followed by another failure before the endpoint, and the security is only set up
with a context. -/
theorem stops_iff_clean (p : Platform) (e : EndpointConfig) (w : CoAPServer κ) :
    Stops p e w ↔ Clean p e := by
  obtain ⟨ctx, hctx, hpki, hendpoint, hcalls⟩ := init_calls p e w
  constructor
  · rintro ⟨-, hcontext, hinputs⟩
    refine ⟨fun hgai hnew hok => ?_, fun hsec hreaches => ?_⟩
    · have hmade := hinputs _ _ _ (hendpoint ⟨Or.inl hgai, hnew⟩ hok)
      exact not_gaiFails (resolved_ne_none_iff.mp hmade) hgai
    · exact hctx.mp (hcontext _ (hpki hsec hreaches))
  · rintro ⟨hresolved, hcontext⟩
    have hresolves : HasContext p e → (Secure e → SecurityOk p e) → Resolves p e := by
      rintro ⟨hgai | hres, hnew⟩ hok
      · exact absurd hok (hresolved hgai hnew)
      · exact hres
    constructor
    · intro t h
      obtain ⟨hhas, hok, hnew, hattach⟩ := init_ok h
      exact ⟨hresolves hhas hok, hhas.2, hok, hnew, hattach⟩
    · intro c hc
      rcases hcalls c hc with ⟨rfl, hsec, hreaches⟩ | ⟨hhas, -, hc, -⟩
      · exact hctx.mpr (hcontext hsec hreaches)
      · exact hc.trans (hctx.mpr hhas)
    · intro ctx' addr protocol hc
      rcases hcalls _ hc with ⟨hne, -⟩ | ⟨hhas, hok, -, haddr⟩
      · cases hne
      · rw [haddr _ _ _ rfl, resolved_ne_none_iff]
        exact hresolves hhas hok

end Main

/-! ### The start of the server -/

/-- What `init` makes of the answers. -/
def Platform.library (p : Platform) (e : EndpointConfig) (dtls tls : Bool) : Library :=
  { dtlsIsSupported := dtls
    tlsIsSupported := tls
    resolveAddress := decide (resolveCode p e ≠ 0)
    newContext := p.newContext
    setupSecurity := decide (SecurityOk p e)
    newEndpoint := p.newEndpoint }

theorem contextErr_library (p : Platform) (e : EndpointConfig) (dtls tls : Bool) :
    contextErr (p.library e dtls tls) e = openErr p e ++ securityErr p e := by
  simp only [contextErr, Platform.library, openErr, securityErr, Secure, decide_eq_false_iff_not,
    not_not, ne_eq]
  congr

theorem erases_attachResources :
    Erases Prod.snd (attachResources : InitM κ ℤ) Dynamic.init := by
  rintro ⟨s, w⟩
  exact erases_attachEach _ (s, w)

theorem erases_finish : Erases Prod.snd (finish : InitM κ ℤ) (pure 0) := by
  have hmodes : Erases Prod.snd (setModes : InitM κ ℤ) (pure 0) :=
    (erases_call _).skip ((erases_call _).skip (Erases.pure 0))
  have hunknown : Erases Prod.snd (aside (call fun s => .addUnknown s.ctx) >>= fun _ => setModes :
      InitM κ ℤ) (pure 0) := (erases_call _).skip hmodes
  rintro ⟨s, w⟩
  have hboth : Erases Prod.snd (if w.dynamicResources ≠ [] then
      aside (call fun s => .addUnknown s.ctx) >>= fun _ => setModes else setModes : InitM κ ℤ)
      (pure 0) := by
    split_ifs
    · exact hunknown
    · exact hmodes
  exact hboth (s, w)

theorem erases_unlessFailed {ret : ℤ} {m : InitM κ ℤ} {m' : ServerM κ ℤ}
    (h : Erases Prod.snd m m') :
    Erases Prod.snd (unlessFailed ret m) (if ret = 0 then m' else pure ret) :=
  Erases.ite h (Erases.pure ret)

/-- After the context and the security come the endpoint and the resources. -/
theorem erases_connect (p : Platform) (e : EndpointConfig) :
    Erases Prod.snd (connect p e 0 : InitM κ ℤ) (if p.newEndpoint = false then do
        writeErr [str "ERROR: Could not add CoAP endpoint."]
        return 1
      else Dynamic.init) := by
  have hrest : ∀ ret, Erases Prod.snd (do
      let ret ← unlessFailed ret attachResources
      unlessFailed ret finish : InitM κ ℤ) (if ret = 0 then Dynamic.init else pure ret) := by
    intro ret
    have hfinish : ∀ ret, Erases Prod.snd (unlessFailed ret finish : InitM κ ℤ) (pure ret) := by
      intro ret
      have h : Erases Prod.snd (unlessFailed ret finish : InitM κ ℤ) _ :=
        erases_unlessFailed erases_finish
      by_cases hret : ret = 0
      · rwa [if_pos hret, ← hret] at h
      · rwa [if_neg hret] at h
    have hattach : Erases Prod.snd (unlessFailed ret attachResources : InitM κ ℤ) _ :=
      erases_unlessFailed erases_attachResources
    have h := hattach.bind hfinish
    rwa [bind_pure] at h
  cases hnew : p.newEndpoint with
  | false =>
    have hadd : Erases Prod.snd (addEndpoint p e : InitM κ ℤ) (do
        writeErr [str "ERROR: Could not add CoAP endpoint."]
        return 1) := by
      rintro ⟨s, w⟩
      simp only [addEndpoint, hnew]
      rfl
    have h := hadd.bind hrest
    simp only [bind_assoc, pure_bind, if_neg (by decide : ¬ (1 : ℤ) = 0)] at h
    rw [if_pos rfl]
    exact h
  | true =>
    have hadd : Erases Prod.snd (addEndpoint p e : InitM κ ℤ) (pure 0) := by
      rintro ⟨s, w⟩
      simp only [addEndpoint, hnew]
      rfl
    exact hadd.skip (hrest 0)

/-- **The start of the server** does what `init` does. -/
theorem init_refines (p : Platform) (e : EndpointConfig) (dtls tls : Bool) (w : CoAPServer κ) :
    mapState Prod.snd ((init p e).run (fresh, w)) =
      (initServer (p.library e dtls tls) e).run w := by
  obtain ⟨s, hinit, -⟩ := init_run p e w
  rw [hinit]
  simp only [initServer, EStateM.run_bind, writeErr_run, contextErr_library]
  by_cases h0 : openErr p e ++ securityErr p e = []
  · rw [frontCode, if_pos h0, if_neg (not_not.mpr h0), erases_connect]
    rfl
  · rw [frontCode, if_neg h0, if_pos h0, connect_failed (by decide)]
    rfl

/-- A platform on which only the address cannot be resolved. -/
def noAddress : Platform :=
  { getaddrinfo := fun _ _ => .error ⟨-2, by decide⟩
    gaiStrerror := fun _ => str "Name or service not known"
    newContext := true
    malloc := true
    stat := fun _ _ => true
    contextSetPki := true
    newEndpoint := true }

/-- The address is not resolved, and `init` returns `0`. -/
theorem unresolved_passes : ¬ ∀ (p : Platform) (e : EndpointConfig) (w : CoAPServer ℕ),
    Stops p e w := by
  intro h
  obtain ⟨t, hrun⟩ : ∃ t, (init noAddress {}).run (fresh, { dynamicServer with resources := [] }) =
      .ok 0 t := ⟨_, rfl⟩
  obtain ⟨⟨res, hres, -⟩, -⟩ := (h _ _ _).succeeds t hrun
  cases hres

end CoapServer.Server.Initialise
