import CertEnrollment.Store.Redis

/-!
# Cache stores

A store of texts that disappear after a time: the two requests that can be made of it,
a store held in memory, and one on a key-value server. Times are in milliseconds.
-/
namespace CertEnrollment.Cache
open Data

inductive Ask where
  | read (key : String)
  /-- Replaces what is there; the text disappears after `ttl`. -/
  | write (key value : String) (ttl : Nat)
  deriving DecidableEq, Repr

/-- The answers of a store; a failure says why. -/
abbrev Ask.Answer : Ask → Type
  | read _ => Except String (Option String)
  | write _ _ _ => Except String Unit

/-! ## In memory -/

/-- A text and the time at which it is gone; some texts never are. -/
structure Entry where
  value : String
  expiresAt : Option Nat
  deriving DecidableEq, Repr

/-- The last instant that a clock can show, in milliseconds of the Unix epoch: the end
of the year 262142. -/
def lastInstant : Nat := 8210266876799999

/-- When an entry written at `now` is gone; never, if no clock can show that instant. -/
def expiry (now ttl : Nat) : Option Nat :=
  if now + ttl ≤ lastInstant then some (now + ttl) else none

/-- Whether an entry still counts. -/
def Entry.isLive (now : Nat) (e : Entry) : Bool := e.expiresAt.all (now < ·)

/-- A cache store in memory. -/
structure Table where
  entries : SortedMap Entry

namespace Table

def empty : Table := ⟨.empty⟩

/-- Entries, expired ones included as long as nobody has asked for them. -/
def size (t : Table) : Nat := t.entries.size

/-- The text under a key and the store after the request, which drops an expired entry. -/
def read (t : Table) (now : Nat) (key : String) : Option String × Table :=
  match t.entries.get? key with
  | none => (none, t)
  | some e => if e.isLive now then (some e.value, t) else (none, ⟨t.entries.erase key⟩)

def write (t : Table) (now : Nat) (key value : String) (ttl : Nat) : Table :=
  ⟨t.entries.insert key ⟨value, expiry now ttl⟩⟩

/-- The answer to a request at a time and the store after it. It never fails. -/
def respond (t : Table) (now : Nat) : (a : Ask) → a.Answer × Table
  | .read key => (.ok (t.read now key).1, (t.read now key).2)
  | .write key value ttl => (.ok (), t.write now key value ttl)

/-- What reading gives depends on the entry of the key alone. -/
theorem read_fst (t : Table) (now : Nat) (key : String) :
    (t.read now key).1 = (t.entries.get? key).bind fun e =>
      if e.isLive now then some e.value else none := by
  cases found : t.entries.get? key with
  | none => simp [read, found]
  | some e => by_cases live : e.isLive now = true <;> simp [read, found, live]

/-- What a key is read as after something was written. -/
theorem read_write (t : Table) (now then' : Nat) (key k value : String) (ttl : Nat) :
    ((t.write now key value ttl).read then' k).1 =
      if k = key then
        if (⟨value, expiry now ttl⟩ : Entry).isLive then' then some value else none
      else (t.read then' k).1 := by
  rw [read_fst, read_fst, write, SortedMap.get?_insert]
  by_cases same : k = key <;> simp [same]

/-- Reading, which may drop an entry, changes nothing for later readers. -/
theorem read_read (t : Table) {now later : Nat} (order : now ≤ later) (key k : String) :
    (((t.read now key).2).read later k).1 = (t.read later k).1 := by
  cases found : t.entries.get? key with
  | none => simp [read, found]
  | some e =>
    by_cases live : e.isLive now = true
    · simp [read, found, live]
    · have gone : e.isLive later = false := by
        cases h : e.expiresAt with
        | none => simp [Entry.isLive, h] at live
        | some time =>
          have : time ≤ now := by simpa [Entry.isLive, h] using live
          simp [Entry.isLive, h]
          omega
      have dropped : (t.read now key).2 = ⟨t.entries.erase key⟩ := by simp [read, found, live]
      rw [dropped, read_fst, read_fst, SortedMap.get?_erase]
      by_cases same : k = key
      · rw [if_pos same, same, found]
        simp [gone]
      · rw [if_neg same]

end Table

/-! ## On a server -/

/-- The command for a request. Lifetimes are whole seconds there, at least one. -/
def Ask.command : Ask → List String
  | read key => ["GET", key]
  | write key value ttl => ["SETEX", key, toString (max (ttl / 1000) 1), value]

/-- Makes a request on the server. -/
def Ask.onServer : (a : Ask) →
    Interaction Store.Server.Ask Store.Server.Ask.Answer a.Answer
  | read key => (Store.Server.command (read key).command).run
  | write key value ttl =>
    ((fun _ => ()) <$> Store.Server.command (write key value ttl).command :
      Store.Server.Action Unit).run

/-- The answer to a request that could not be made. -/
def Ask.refuse (reason : String) : (a : Ask) → a.Answer
  | read _ => .error reason
  | write _ _ _ => .error reason

/-- Makes a request on the server that the options name. The state is whether there is
a connection; it is opened for the first request, and tried again after a failure. -/
def Ask.remotely (options : Store.Options) (a : Ask) :
    StateT Bool (Interaction Store.Server.Ask Store.Server.Ask.Answer) a.Answer :=
  fun connected => do
    if connected then return (← a.onServer, true)
    match ← (Store.Server.openFor options).run with
    | .error reason => return (a.refuse reason, false)
    | .ok () => return (← a.onServer, true)

end CertEnrollment.Cache
