import CertEnrollment.Proofs.Alike
import CertEnrollment.Proofs.Dns.Operations

/-!
# Backends that are kept

A router makes a backend when a zone is first used, and keeps it for the name of the zone. Nobody
can tell: whatever requests are served one after the other, and whatever is answered to them, the
router asks for the same things and returns the same results as one that keeps no backends
and makes a new one for every request. For zones of one name this is so because hosts are only
ever placed in the last of them. Requests that are refused leave no trace at all.
-/
namespace CertEnrollment.Dns
open Data Interaction Store

/-! ## Routers that keep nothing -/

/-- The kind of backend for a zone: the one that it asks for, or else the first one with a
section. -/
def Options.kindFor (o : Options) (z : Zone) : BackendKind :=
  z.backend.getD (if o.coredns.isSome then .coredns else .namecom)

/-- An operation with a backend that is made for it alone. -/
def Operation.afresh (r : Router) (op : Operation) : Router.Action Unit :=
  match r.verify op.host with
  | .error e => throw e
  | .ok parts => r.build parts.zone (r.options.kindFor parts.zone) >>= op.finish parts

/-- The host cannot be placed, or no backend can be made for its zone. -/
def Operation.Refused (r : Router) (op : Operation) (e : Error) : Prop :=
  r.verify op.host = .error e ∨ ∃ parts, r.verify op.host = .ok parts ∧
    r.build parts.zone (r.options.kindFor parts.zone) = throw e

namespace Router

/-- Requests that are served one after the other, each with the memory that is left by then. -/
def session (serve : Operation → Action Unit) :
    List Operation → Memory → Interaction Ask Ask.Answer (List (Except Error Unit))
  | [], _ => .done []
  | op :: ops, memory => do
    let (result, memory) ← (serve op).run.run memory
    return result :: (← session serve ops memory)

/-- What is left of a memory without its backends. -/
def Memory.bare (memory : Memory) : Memory := ⟨.empty, memory.connected⟩

/-- The backends are those of their zones, and there is a connection if one of them needs it. -/
structure Memory.Kept (memory : Memory) (r : Router) : Prop where
  sound : memory.Sound r
  connected : ∀ name s, memory.backends.get? name = some (.zoneStore s) → memory.connected = true

/-- The results are the same, and one of the memories is the other one without its backends. -/
structure Agree {α : Type} (r : Router) (out out' : Except Error α × Memory) : Prop where
  result : out.1 = out'.1
  kept : out.2.Kept r
  bare : out'.2 = out.2.bare

variable {zones : List Zone} {options : Options} {r : Router} {z : Zone} {b : Backend}
  {memory memory' : Memory}

theorem kindFor_eq (made : make zones options = .ok r) (z : Zone) :
    r.kindFor z = r.options.kindFor z := by
  have first : r.defaultKind = if r.options.coredns.isSome then .coredns else .namecom := by
    unfold make at made
    split at made
    · cases made
    · next listed =>
      cases made
      unfold Options.kinds at listed
      split at listed
      · next some_there =>
        rw [if_pos some_there]
        exact (List.cons.inj listed).1.symm
      · next none_there =>
        rw [if_neg none_there]
        split at listed
        · exact (List.cons.inj listed).1.symm
        · cases listed
  rw [kindFor, Options.kindFor, first]

theorem Agree.bind {α β : Type} {x y : Action α} {f g : α → Action β}
    (first : Alike (Agree r) (x.run.run memory) (y.run.run memory'))
    (second : ∀ a m, m.Kept r → Alike (Agree r) ((f a).run.run m) ((g a).run.run m.bare)) :
    Alike (Agree r) ((x >>= f).run.run memory) ((y >>= g).run.run memory') := by
  rw [run_bind, run_bind]
  refine first.bind ?_
  rintro ⟨result, m⟩ ⟨_, _⟩ ⟨rfl, kept, rfl⟩
  cases result with
  | error e => exact .done ⟨rfl, kept, rfl⟩
  | ok a => exact second a m kept

/-! ## The backend of a zone -/

/-- Nothing is opened for a backend that is at hand. -/
theorem opening_of_connected (h : ∀ s, b = .zoneStore s → memory.connected = true) :
    (r.opening b).run.run memory = .done (.ok (), memory) := by
  unfold opening
  split
  · rw [connect, run_get_bind, if_pos (h _ rfl)]
    rfl
  · rfl

/-- Otherwise the connection is asked for first, and nothing changes if it fails. -/
theorem opening_of_unconnected {s : ZoneStore} {section' : Store.Options}
    (configured : r.options.coredns = some section') (unconnected : memory.connected ≠ true) :
    (r.opening (.zoneStore s)).run.run memory = .ask (.connect section') fun answer =>
      match answer with
      | .error reason => .done (.error (.store reason), memory)
      | .ok () => .done (.ok (), { memory with connected := true }) := by
  simp only [opening, configured]
  rw [connect, run_get_bind, if_neg unconnected]
  refine congrArg (Interaction.ask _) (funext fun answer => ?_)
  cases answer <;> rfl

theorem configured_of_backendOf {s : ZoneStore} (served : r.backendOf z = .ok (.zoneStore s)) :
    ∃ section', r.options.coredns = some section' := by
  rw [backendOf] at served
  split at served
  · split at served
    · cases served
    · next section' configured => exact ⟨section', configured⟩
  · split at served
    · cases served
    · next options _ =>
      cases account : Provider.ofOptions z.name options <;> simp [account, Except.map] at served

/-- A connection is opened without a look at the backends. -/
theorem alike_opening (served : r.backendOf z = .ok b) (kept : memory.Kept r) :
    Alike (fun out out' => Agree r out out' ∧ out.2.backends = memory.backends ∧
        (out.1 = .ok () → ∀ s, b = .zoneStore s → out.2.connected = true))
      ((r.opening b).run.run memory) ((r.opening b).run.run memory.bare) := by
  by_cases ready : ∀ s, b = .zoneStore s → memory.connected = true
  · have ready' : ∀ s, b = .zoneStore s → memory.bare.connected = true := ready
    rw [opening_of_connected ready, opening_of_connected ready']
    exact .done ⟨⟨rfl, kept, rfl⟩, rfl, fun _ => ready⟩
  · obtain ⟨s, rfl, unconnected⟩ : ∃ s, b = .zoneStore s ∧ memory.connected ≠ true := by
      simpa using ready
    have unconnected' : memory.bare.connected ≠ true := unconnected
    obtain ⟨section', configured⟩ := configured_of_backendOf served
    rw [opening_of_unconnected configured unconnected,
      opening_of_unconnected configured unconnected']
    refine .ask fun answer => ?_
    cases answer with
    | error reason => exact .done ⟨⟨rfl, kept, rfl⟩, rfl, by simp⟩
    | ok _ => exact .done ⟨⟨rfl, ⟨kept.sound, fun _ _ _ => rfl⟩, rfl⟩, rfl, fun _ _ _ => rfl⟩

/-- The backend that is kept for a zone, or that is kept from now on, is the one that is made
afresh. -/
theorem alike_backend (zone : r.zoneOf? z.name = some z) (served : r.backendOf z = .ok b)
    (kept : memory.Kept r) :
    Alike (Agree r) ((r.backendFor z).run.run memory)
      ((r.build z (r.kindFor z)).run.run memory.bare) := by
  rw [backendFor, run_get_bind, build_eq, served]
  cases there : memory.backends.get? z.name with
  | some b' =>
    have same : b' = b := Except.ok.inj ((kept.sound.backend zone there).symm.trans served)
    have ready : ∀ s, b = .zoneStore s → memory.bare.connected = true := fun s hs =>
      kept.connected z.name s (hs ▸ same ▸ there)
    dsimp only
    rw [run_bind, opening_of_connected ready, same]
    exact .done ⟨rfl, kept, rfl⟩
  | none =>
    dsimp only
    rw [bind_assoc, run_bind, run_bind]
    refine (alike_opening served kept).bind ?_
    rintro ⟨result, m⟩ ⟨_, _⟩ ⟨⟨rfl, kept', rfl⟩, backends, opened⟩
    cases result with
    | error e => exact .done ⟨rfl, kept', rfl⟩
    | ok _ =>
      refine .done ⟨rfl, ⟨kept'.sound.insert zone served, fun name s hs => ?_⟩, rfl⟩
      rw [SortedMap.get?_insert] at hs
      split at hs
      · exact opened rfl s (Option.some.inj hs)
      · exact kept'.connected name s hs

/-! ## Requests -/

theorem run_onStore {α : Type} (x : StoreAction α) (memory : Memory) :
    (onStore x).run.run memory = (x.run.runWith fun a => Interaction.call (Ask.store a)) >>=
      fun result => (.done (result, memory) : Interaction Ask Ask.Answer _) :=
  rfl

theorem run_onProvider {α : Type} (x : ProviderAction α) (memory : Memory) :
    (onProvider x).run.run memory =
      (x.run.runWith fun request => Interaction.call (Ask.exchange request)) >>=
        fun result => (.done (result, memory) : Interaction Ask Ask.Answer _) :=
  rfl

theorem alike_onStore {α : Type} (x : StoreAction α) (kept : memory.Kept r) :
    Alike (Agree r) ((onStore x).run.run memory) ((onStore x).run.run memory.bare) := by
  rw [run_onStore, run_onStore]
  refine (alike_self _).bind ?_
  rintro result _ rfl
  exact .done ⟨rfl, kept, rfl⟩

theorem alike_onProvider {α : Type} (x : ProviderAction α) (kept : memory.Kept r) :
    Alike (Agree r) ((onProvider x).run.run memory) ((onProvider x).run.run memory.bare) := by
  rw [run_onProvider, run_onProvider]
  refine (alike_self _).bind ?_
  rintro result _ rfl
  exact .done ⟨rfl, kept, rfl⟩

theorem alike_finish (op : Operation) (parts : HostParts) (b : Backend) (kept : memory.Kept r) :
    Alike (Agree r) ((op.finish parts b).run.run memory)
      ((op.finish parts b).run.run memory.bare) := by
  cases b with
  | zoneStore s => exact alike_onStore _ kept
  | provider p =>
    cases op with
    | create host target =>
      exact Agree.bind (alike_onProvider _ kept) fun _ m kept => .done ⟨rfl, kept, rfl⟩
    | delete host => exact alike_onProvider _ kept

/-- What a router asks for and returns does not depend on what it keeps. -/
theorem alike_action (made : make zones options = .ok r) (op : Operation)
    (kept : memory.Kept r) :
    Alike (Agree r) ((op.action r).run.run memory) ((op.afresh r).run.run memory.bare) := by
  cases placed : r.verify op.host with
  | error e =>
    rw [Operation.run_of_unplaced op placed, Operation.afresh, placed]
    exact .done ⟨rfl, kept, rfl⟩
  | ok parts =>
    have zone := zoneOf?_of_verify placed
    rw [Operation.action_eq placed, Operation.afresh, placed]
    dsimp only
    rw [← kindFor_eq made]
    cases served : r.backendOf parts.zone with
    | error e =>
      rw [build_eq, served, run_bind, backendFor_of_unserved kept.sound zone served]
      exact .done ⟨rfl, kept, rfl⟩
    | ok b =>
      exact Agree.bind (alike_backend zone served kept) fun b m kept =>
        alike_finish op parts b kept

/-- With a connection there, nothing is left of an operation that keeps no backends. -/
theorem obeys_afresh (made : make zones options = .ok r) (op : Operation)
    (connected : memory.connected = true) :
    ((op.afresh r).run.run memory).Obeys (fun _ _ => True) (fun _ out => out.2 = memory) [] := by
  cases placed : r.verify op.host with
  | error e =>
    rw [Operation.afresh, placed]
    rfl
  | ok parts =>
    rw [Operation.afresh, placed]
    dsimp only
    rw [← kindFor_eq made, build_eq]
    cases served : r.backendOf parts.zone with
    | error e => rfl
    | ok b =>
      dsimp only
      rw [bind_assoc, run_bind, opening_of_connected fun _ _ => connected]
      exact ((Operation.obeys_finish served).weaken fun _ _ _ => trivial).imp fun _ _ h => h.2

/-! ## Sessions -/

theorem session_cons (serve : Operation → Action Unit) (op : Operation) (ops : List Operation)
    (memory : Memory) : session serve (op :: ops) memory = (serve op).run.run memory >>= fun out =>
      session serve ops out.2 >>= fun results => .done (out.1 :: results) :=
  rfl

theorem session_action (made : make zones options = .ok r) (ops : List Operation)
    (kept : memory.Kept r) :
    session (·.action r) ops memory = session (·.afresh r) ops memory.bare := by
  induction ops generalizing memory with
  | nil => rfl
  | cons op ops ih =>
    rw [session_cons, session_cons]
    refine Alike.eq ((alike_action made op kept).bind ?_)
    rintro ⟨result, m⟩ ⟨_, _⟩ ⟨rfl, kept', rfl⟩
    rw [ih kept']
    exact alike_self _

theorem session_afresh (made : make zones options = .ok r) (ops : List Operation)
    (connected : memory.connected = true) :
    session (·.afresh r) ops memory =
      ops.mapM fun op => Prod.fst <$> (op.afresh r).run.run memory := by
  induction ops with
  | nil => rfl
  | cons op ops ih =>
    rw [session_cons, List.mapM_cons, bind_map_left]
    refine Alike.eq ((alike_of_obeys (obeys_afresh made op connected)).bind ?_)
    rintro ⟨result, m⟩ _ ⟨rfl, rfl⟩
    rw [ih]
    exact alike_self _

/-! ## Refused requests -/

theorem refused_iff_fault (made : make zones options = .ok r) {op : Operation} {e : Error} :
    op.Refused r e ↔ r.fault? op.host = some e := by
  rw [Operation.Refused, fault?]
  cases placed : r.verify op.host with
  | error e' => simp
  | ok parts =>
    have result : ∀ {x y : Action Backend}, x = y →
        x.run.run ⟨.empty, true⟩ = y.run.run ⟨.empty, true⟩ := fun same => same ▸ rfl
    simp only [reduceCtorEq, false_or, Except.ok.injEq, exists_eq_left', ← kindFor_eq made,
      build_eq]
    cases served : r.backendOf parts.zone with
    | error e' =>
      refine ⟨fun same => ?_, fun same => by rw [Option.some.inj same]⟩
      cases result same
      rfl
    | ok b =>
      refine ⟨fun same => ?_, fun absurd => by cases absurd⟩
      have out := result same
      dsimp only at out
      rw [run_bind, opening_of_connected fun _ _ => rfl] at out
      cases out

theorem Reached.kept (made : make zones options = .ok r) (reached : r.Reached memory) :
    memory.Kept r := by
  induction reached with
  | start connected => exact ⟨(Reached.start connected).sound, by simp⟩
  | after earlier run ih =>
    obtain ⟨_, -, agree⟩ := (alike_action made _ ih).runs run
    exact agree.kept

/-- Whatever is answered, what is kept stays sound. -/
theorem obeys_sound (op : Operation) (sound : memory.Sound r) :
    ((op.action r).run.run memory).Obeys (fun _ _ => True) (fun _ out => out.2.Sound r) [] := by
  cases fault : r.fault? op.host with
  | some e =>
    rw [Operation.run_of_fault sound fault]
    exact sound
  | none =>
    exact ((Operation.obeys_of_faultless sound fault).weaken fun _ _ _ => trivial).imp
      fun _ _ h => h.2

/-- A request that is refused may as well not have been made. -/
theorem session_refused {op : Operation} {e : Error} (fault : r.fault? op.host = some e)
    (before after : List Operation) (sound : memory.Sound r) :
    session (·.action r) (before ++ op :: after) memory =
      (fun results => results.take before.length ++ .error e :: results.drop before.length) <$>
        session (·.action r) (before ++ after) memory := by
  induction before generalizing memory with
  | nil =>
    rw [List.nil_append, session_cons, Operation.run_of_fault sound fault]
    rfl
  | cons first before ih =>
    rw [List.cons_append, List.cons_append, session_cons, session_cons, map_bind]
    refine Alike.eq ((alike_of_obeys (obeys_sound first sound)).bind ?_)
    rintro ⟨result, m⟩ _ ⟨rfl, sound'⟩
    rw [ih sound', bind_map_left, map_bind]
    exact alike_self _

end Router

open Router

/-- What a router over zones and options does for requests, one after the other. -/
structure KeptUnseen (r : Router) (ops : List Operation) : Prop where
  /-- Over a store that is given, it asks for the same things and returns the same results as one
  that starts anew for every request, with a backend of the kind that is due for the zone. -/
  given : session (·.action r) ops ⟨.empty, true⟩ =
    ops.mapM fun op => Prod.fst <$> (op.afresh r).run.run ⟨.empty, true⟩
  /-- Otherwise it is the same as with one that keeps the connection and nothing else. -/
  connecting : ∀ connected, session (·.action r) ops ⟨.empty, connected⟩ =
    session (·.afresh r) ops ⟨.empty, connected⟩
  /-- A request that is refused asks for nothing, and the memory stays as it is. -/
  refused : ∀ (op : Operation) e, op.Refused r e → ∀ memory, r.Reached memory →
    (op.action r).run.run memory = .done (.error e, memory)
  /-- The other ones are served as if it had not been made. -/
  others : ∀ before op after e, ops = before ++ op :: after → op.Refused r e →
    ∀ memory, r.Reached memory → session (·.action r) ops memory =
      (fun results => results.take before.length ++ .error e :: results.drop before.length) <$>
        session (·.action r) (before ++ after) memory
  /-- Where the connection is missing that a backend needs, it is asked for before anything else;
  if that fails, nothing else is asked for and the memory stays as it is. -/
  unconnected : ∀ (op : Operation) parts s, r.verify op.host = .ok parts →
    r.backendOf parts.zone = .ok (.zoneStore s) →
    ∀ memory, r.Reached memory → memory.connected ≠ true → ∃ section' next,
      (op.action r).run.run memory = .ask (.connect section') next ∧
        ∀ reason, next (.error reason) = .done (.error (.store reason), memory)

/-- Nobody can tell that backends are kept, whatever the zones, the options and the requests are. -/
theorem kept_unseen {zones : List Zone} {options : Options} {r : Router}
    (made : Router.make zones options = .ok r) (ops : List Operation) : KeptUnseen r ops where
  given := by
    have kept := (Reached.start (r := r) true).kept made
    rw [session_action made ops kept, session_afresh made ops rfl]
    rfl
  connecting connected := session_action made ops ((Reached.start connected).kept made)
  refused op e refusal memory reached :=
    Operation.run_of_fault reached.sound ((refused_iff_fault made).mp refusal)
  others before op after e split refusal memory reached := by
    rw [split, session_refused ((refused_iff_fault made).mp refusal) before after reached.sound]
  unconnected op parts s placed served memory reached unconnected := by
    obtain ⟨section', configured⟩ := configured_of_backendOf served
    have kept := reached.kept made
    have unkept : memory.backends.get? parts.zone.name = none := by
      refine Option.eq_none_iff_forall_ne_some.mpr fun b there => unconnected ?_
      have same : Backend.zoneStore s = b := Except.ok.inj
        (served.symm.trans (kept.sound.backend (zoneOf?_of_verify placed) there))
      exact kept.connected parts.zone.name s (same ▸ there)
    rw [Operation.action_eq placed, run_bind, backendFor, run_get_bind, unkept]
    dsimp only
    rw [build_eq, served, bind_assoc, run_bind, opening_of_unconnected configured unconnected]
    exact ⟨section', _, rfl, fun reason => rfl⟩

/-- Two zones of one name, of which the last one counts, and a zone for a provider that there is no
account with. -/
def oneName : List Zone :=
  [.make "org" [] (some .namecom), .make "org" [] none, .make "net" [] (some .namecom)]

/-- Of these requests the second one and the third one are refused. -/
theorem kept_unseen_oneName : ∃ r, Router.make oneName (Options.empty.withCoredns .default) = .ok r ∧
    KeptUnseen r [.create "a.org" "t.ca", .create "a.net" "t.ca", .delete "a.com",
      .delete "A.org."] := by
  have made : Router.make oneName (Options.empty.withCoredns .default) =
      .ok ⟨oneName, Options.empty.withCoredns .default, .coredns⟩ := rfl
  exact ⟨_, made, kept_unseen made _⟩

end CertEnrollment.Dns
