import MetadataAgent.Bytes

/-! # Dispatch of API requests

Handlers are registered by method and prefix. The dispatcher goes backwards through the map, where
a longer prefix comes before the shorter ones it extends, and calls every handler that matches. -/
namespace MetadataAgent.MetadataApiServer
open Lib
set_option autoImplicit false

/-- What the dispatcher and the handlers read of a request. -/
structure Request where
  method : Bytes
  destination : Bytes

/-- A handler answers on the connection. -/
abbrev Handler (κ : Type) := Request → κ → κ

/-- Handlers by method and prefix, in the order of `std::pair`. -/
abbrev HandlerMap (κ : Type) := OrderedMap (Bytes ×ₗ Bytes) (Handler κ)

/-- `std::string::find`. -/
def stringFind (s pattern : Bytes) : Option ℕ :=
  (List.range (s.length + 1)).find? fun i => pattern.isPrefixOf (s.drop i)

def skips (request : Request) (key : Bytes ×ₗ Bytes) : Bool :=
  request.method ≠ (ofLex key).1 || stringFind request.destination (ofLex key).2 ≠ some 0

section Dispatch
variable {κ : Type}

/-- The loop of `Dispatcher::operator()`: the connection, and the entries whose handler was
called. -/
def dispatchLoop (request : Request) (conn : κ) :
    List ((Bytes ×ₗ Bytes) × Handler κ) → κ × List ((Bytes ×ₗ Bytes) × Handler κ)
  | [] => (conn, [])
  | it :: rest =>
    if skips request it.1 then dispatchLoop request conn rest
    else
      let called := dispatchLoop request (it.2 request conn) rest
      (called.1, it :: called.2)

def dispatch (handlers : HandlerMap κ) (request : Request) (conn : κ) :
    κ × List ((Bytes ×ₗ Bytes) × Handler κ) :=
  dispatchLoop request conn handlers.entries.reverse

/-! ## Which handlers are called -/

/-- The entry has the method of the request and a prefix of its destination. -/
def Matches (request : Request) (e : (Bytes ×ₗ Bytes) × Handler κ) : Prop :=
  (ofLex e.1).1 = request.method ∧ (ofLex e.1).2 <+: request.destination

/-- The matching entry with the longest prefix. -/
structure LongestMatch (handlers : HandlerMap κ) (request : Request)
    (e : (Bytes ×ₗ Bytes) × Handler κ) : Prop where
  registered : e ∈ handlers.entries
  isMatch : Matches request e
  longest : ∀ f ∈ handlers.entries, Matches request f →
    (ofLex f.1).2.length ≤ (ofLex e.1).2.length

theorem stringFind_eq_zero_iff (s pattern : Bytes) :
    stringFind s pattern = some 0 ↔ pattern <+: s := by
  unfold stringFind
  rw [List.range_succ_eq_map, List.find?_cons, List.drop_zero, ← List.isPrefixOf_iff_prefix]
  cases pattern.isPrefixOf s with
  | true => simp
  | false =>
    simp only [Bool.false_eq_true, iff_false]
    intro h
    have hmem := List.mem_of_find?_eq_some h
    simp at hmem

theorem skips_eq_false_iff (request : Request) (e : (Bytes ×ₗ Bytes) × Handler κ) :
    skips request e.1 = false ↔ Matches request e := by
  unfold skips Matches
  rw [Bool.or_eq_false_iff, decide_eq_false_iff_not, decide_eq_false_iff_not, not_not, not_not,
    stringFind_eq_zero_iff, eq_comm]

theorem dispatchLoop_snd (request : Request) (conn : κ)
    (entries : List ((Bytes ×ₗ Bytes) × Handler κ)) :
    (dispatchLoop request conn entries).2 = entries.filter fun e => !skips request e.1 := by
  induction entries generalizing conn with
  | nil => rfl
  | cons it rest ih =>
    rw [dispatchLoop, List.filter_cons]
    cases skips request it.1 with
    | true => simpa using ih conn
    | false => simpa using ih (it.2 request conn)

/-- The connection has been through the handlers that were called, one after the other. -/
theorem dispatchLoop_fst (request : Request) (conn : κ)
    (entries : List ((Bytes ×ₗ Bytes) × Handler κ)) :
    (dispatchLoop request conn entries).1 =
      (dispatchLoop request conn entries).2.foldl (fun conn e => e.2 request conn) conn := by
  induction entries generalizing conn with
  | nil => rfl
  | cons it rest ih =>
    rw [dispatchLoop]
    cases skips request it.1 with
    | true => simpa using ih conn
    | false => simpa using ih (it.2 request conn)

theorem mem_dispatch {handlers : HandlerMap κ} {request : Request} {conn : κ}
    {e : (Bytes ×ₗ Bytes) × Handler κ} :
    e ∈ (dispatch handlers request conn).2 ↔ e ∈ handlers.entries ∧ Matches request e := by
  rw [dispatch, dispatchLoop_snd, List.mem_filter, List.mem_reverse, Bool.not_eq_true',
    skips_eq_false_iff]

/-- Of two matching entries, the later one in the map has the longer prefix. -/
theorem length_lt_of_key_lt {request : Request} {e f : (Bytes ×ₗ Bytes) × Handler κ}
    (he : Matches request e) (hf : Matches request f) (h : f.1 < e.1) :
    (ofLex f.1).2.length < (ofLex e.1).2.length := by
  have hprefix : (ofLex f.1).2 < (ofLex e.1).2 := by
    rw [Prod.Lex.lt_iff] at h
    rcases h with hmethod | hprefix
    · rw [hf.1, he.1] at hmethod
      exact absurd hmethod (lt_irrefl _)
    · exact hprefix.2
  by_contra hlength
  have hshorter : (ofLex e.1).2 <+: (ofLex f.1).2 :=
    List.prefix_of_prefix_length_le he.2 hf.2 (not_lt.mp hlength)
  exact hshorter.le hprefix

/-- The handlers that match are called one after the other, longest prefix first. -/
theorem dispatch_longest_first (handlers : HandlerMap κ) (request : Request) (conn : κ) :
    (dispatch handlers request conn).2.Pairwise fun e f =>
      (ofLex f.1).2.length < (ofLex e.1).2.length := by
  have hdescending : (dispatch handlers request conn).2.Pairwise fun e f => f.1 < e.1 := by
    rw [dispatch, dispatchLoop_snd]
    exact (List.pairwise_reverse.mpr handlers.ascending).filter _
  refine hdescending.imp_of_mem ?_
  intro e f he hf hlt
  exact length_lt_of_key_lt (mem_dispatch.mp he).2 (mem_dispatch.mp hf).2 hlt

/-- The first handler that is called is the one with the longest prefix. -/
theorem longestMatch_of_dispatch {handlers : HandlerMap κ} {request : Request} {conn : κ}
    {e : (Bytes ×ₗ Bytes) × Handler κ} {rest : List ((Bytes ×ₗ Bytes) × Handler κ)}
    (h : (dispatch handlers request conn).2 = e :: rest) : LongestMatch handlers request e := by
  have he : e ∈ (dispatch handlers request conn).2 := by
    rw [h]
    exact List.mem_cons_self
  refine ⟨(mem_dispatch.mp he).1, (mem_dispatch.mp he).2, fun f hf hmatch => ?_⟩
  have hcalled : f ∈ e :: rest := h ▸ mem_dispatch.mpr ⟨hf, hmatch⟩
  have hfirst := dispatch_longest_first handlers request conn
  rw [h, List.pairwise_cons] at hfirst
  rcases List.mem_cons.mp hcalled with rfl | hrest
  · exact le_refl _
  · exact (hfirst.1 f hrest).le

theorem dispatch_eq_of_snd {handlers : HandlerMap κ} {request : Request} {conn : κ}
    {called : List ((Bytes ×ₗ Bytes) × Handler κ)}
    (h : (dispatch handlers request conn).2 = called) :
    dispatch handlers request conn =
      (called.foldl (fun conn e => e.2 request conn) conn, called) := by
  refine Prod.ext ?_ h
  rw [dispatch, dispatchLoop_fst, ← dispatch, h]

/-- Exactly the handler with the longest matching prefix is called, exactly once, or none if no
entry matches. -/
def LongestPrefixDispatch (handlers : HandlerMap κ) (request : Request) (conn : κ) : Prop :=
  (∀ e, LongestMatch handlers request e →
    dispatch handlers request conn = (e.2 request conn, [e])) ∧
  ((∀ e ∈ handlers.entries, ¬Matches request e) → dispatch handlers request conn = (conn, []))

/-- The dispatcher calls the handler with the longest prefix alone exactly when at most one entry
matches. -/
theorem longest_prefix_dispatch_iff (handlers : HandlerMap κ) (request : Request) (conn : κ) :
    LongestPrefixDispatch handlers request conn ↔
      ∀ e ∈ handlers.entries, ∀ f ∈ handlers.entries,
        Matches request e → Matches request f → e = f := by
  constructor
  · rintro ⟨hone, _⟩ e he f hf hmatch hmatch'
    have hcalled : e ∈ (dispatch handlers request conn).2 := mem_dispatch.mpr ⟨he, hmatch⟩
    cases hdispatch : (dispatch handlers request conn).2 with
    | nil =>
      rw [hdispatch] at hcalled
      cases hcalled
    | cons g rest =>
      have hsingle := congrArg Prod.snd (hone g (longestMatch_of_dispatch hdispatch))
      simp only at hsingle
      have hall : ∀ a ∈ handlers.entries, Matches request a → a = g := by
        intro a ha hmatch
        have ha' : a ∈ (dispatch handlers request conn).2 := mem_dispatch.mpr ⟨ha, hmatch⟩
        rw [hsingle] at ha'
        exact List.mem_singleton.mp ha'
      rw [hall e he hmatch, hall f hf hmatch']
  · intro hunique
    constructor
    · intro e he
      suffices hcalled : (dispatch handlers request conn).2 = [e] from dispatch_eq_of_snd hcalled
      have hnodup := dispatch_longest_first handlers request conn
      cases hdispatch : (dispatch handlers request conn).2 with
      | nil =>
        have hcalled : e ∈ (dispatch handlers request conn).2 :=
          mem_dispatch.mpr ⟨he.registered, he.isMatch⟩
        rw [hdispatch] at hcalled
        cases hcalled
      | cons g rest =>
        have hall : ∀ a ∈ g :: rest, a = e := by
          intro a ha
          rw [← hdispatch, mem_dispatch] at ha
          exact hunique a ha.1 e he.registered ha.2 he.isMatch
        rw [hdispatch, List.pairwise_cons] at hnodup
        cases rest with
        | nil => rw [hall g List.mem_cons_self]
        | cons a rest =>
          have hlt := hnodup.1 a List.mem_cons_self
          rw [hall g List.mem_cons_self, hall a (by simp)] at hlt
          exact absurd hlt (lt_irrefl _)
    · intro hnone
      suffices hcalled : (dispatch handlers request conn).2 = [] from dispatch_eq_of_snd hcalled
      rw [List.eq_nil_iff_forall_not_mem]
      intro e he
      exact hnone e (mem_dispatch.mp he).1 (mem_dispatch.mp he).2

end Dispatch

/-! ## Overlapping prefixes -/

/-- A connection that keeps what is written to it. -/
def write (text : String) : Handler (List Bytes) := fun _ conn => conn ++ [lit text]

def overlapping : HandlerMap (List Bytes) := .ofList [
  (toLex (lit "GET", lit "/"), write "index"),
  (toLex (lit "GET", lit "/healthz"), write "healthy")]

theorem both_handlers_called :
    (dispatch overlapping ⟨lit "GET", lit "/healthz"⟩ []).1 = [lit "healthy", lit "index"] ∧
      ¬LongestPrefixDispatch overlapping ⟨lit "GET", lit "/healthz"⟩ [] := by
  constructor
  · decide +kernel
  · rintro ⟨hone, _⟩
    have hcalled : (dispatch overlapping ⟨lit "GET", lit "/healthz"⟩ []).2 =
      [(toLex (lit "GET", lit "/healthz"), write "healthy"),
        (toLex (lit "GET", lit "/"), write "index")] := rfl
    have hsingle := hone _ (longestMatch_of_dispatch hcalled)
    rw [Prod.ext_iff, hcalled] at hsingle
    cases hsingle.2

end MetadataAgent.MetadataApiServer
