import CertEnrollment.Interaction
import CertEnrollment.Store.Hash
import CertEnrollment.Store.Options

/-!
# Key-value server sessions

What is sent to a key-value server: the greeting of a new connection and the command
for each request of a store. A reply is a text, nothing, or a refusal.
-/
namespace CertEnrollment.Store

namespace Server

inductive Ask where
  | connect (target : Target)
  | command (words : List String)

/-- A reply that is no text counts as nothing. -/
abbrev Ask.Answer : Ask → Type
  | connect _ => Except String Unit
  | command _ => Except String (Option String)

/-- Interactions with the server that may fail. -/
abbrev Action := ExceptT String (Interaction Ask Ask.Answer)

def connect (t : Target) : Action Unit := ExceptT.mk (.ask (.connect t) fun r => .done r)

/-- Sends a command; a refusal is reported as the server's. -/
def command (words : List String) : Action (Option String) :=
  ExceptT.mk (.ask (.command words) fun r =>
    .done (r.mapError fun e => "An error was signalled by the server - " ++ e))

/-- The commands that make a new connection ready: the password, if there is one, and
the database, if it is not the first. -/
def greeting (t : Target) : List (List String) :=
  (match t.password with
    | some p => ["AUTH" :: (t.username.toList ++ [p])]
    | none => []) ++
  (if t.database = 0 then [] else [["SELECT", toString t.database]])

def sendAll : List (List String) → Action Unit
  | [] => pure ()
  | words :: rest => do
    let _ ← command words
    sendAll rest

/-- Opens a connection to the server that the options name. -/
def openFor (o : Options) : Action Unit := do
  match o.target with
  | .error reason => throw reason
  | .ok t => do
    connect t
    sendAll (greeting t)

end Server

/-- The command for a request of a hash store. -/
def HashAsk.command : HashAsk → List String
  | get key field => ["HGET", key, field]
  | set key field value => ["HSET", key, field, value]
  | delete key field => ["HDEL", key, field]

/-- Makes a request of a hash store on the server. -/
def HashAsk.onServer : (a : HashAsk) → Interaction Server.Ask Server.Ask.Answer a.Answer
  | get key field => (Server.command (get key field).command).run
  | set key field value =>
    ((fun _ => ()) <$> Server.command (set key field value).command : Server.Action Unit).run
  | delete key field =>
    ((fun _ => ()) <$> Server.command (delete key field).command : Server.Action Unit).run

end CertEnrollment.Store
