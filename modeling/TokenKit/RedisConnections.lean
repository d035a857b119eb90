import TokenKit.Redis
import TokenKit.Lib.StepMachine
import Mathlib.Logic.Function.Basic

/-!
# The connection of the Redis store

All calls on a Redis store share one connection, which the store keeps behind a lock. A call that
finds one there takes it; a call that finds none opens one, holding the lock until it is open, and
leaves it there for the others. Over its connection a call sends its command, once. When that fails
it drops the connection that is there by then, and tries once more.

Any number of calls are under way at once. A call runs in sections, between which others run, the
server goes down and up again, and connections break. `redisStep` is one section of one call, or one
thing that happens outside of the store. Connections are numbered in the order in which calls began
to open them.
-/

namespace TokenKit

inductive RedisCall where
  | revoke (jti : String)
  | isRevoked (jti : String)

/-- What the server answers to the command of a call. -/
inductive RedisReply where
  | done
  | found (revoked : Bool)
  deriving DecidableEq

/-- Where a call is, with whether it is its second attempt: before it reads the connection that is
kept, before it takes the lock to open one, while it waits for it to open, before it sends its
command, while it waits for the reply, which the server may have sent, before it drops the
connection that is kept, or past its end. -/
inductive RedisPc where
  | reading (retry : Bool)
  | locking (retry : Bool)
  | opening (retry : Bool) (conn : ℕ)
  | holding (retry : Bool) (conn : ℕ)
  | waiting (retry : Bool) (conn : ℕ) (reply : Option RedisReply)
  | resetting
  | returned (result : Except String RedisReply)

variable (server : RedisServer)

/-- The store: the connection it keeps and the call that holds its lock. The connections: how many
there have been, and which are live. The server: whether it is up, its state and the clock. Where
every call is; and every command sent, as which call sent it over which connection. -/
structure RedisWorld where
  connection : Option ℕ
  lock : Option ℕ
  opened : ℕ
  live : ℕ → Bool
  up : Bool
  state : server.State
  now : ℕ
  pc : ℕ → RedisPc
  sent : List (ℕ × ℕ)

/-- The next section of a call; a connection opens, or fails to; the server executes a command, the
reply arrives, or the command fails; the server goes down or up; a connection breaks; another client
has its way with the data; time passes. -/
inductive RedisEvent where
  | step (c : ℕ)
  | connected (c : ℕ)
  | connectFailed (c : ℕ) (text : String)
  | execute (c : ℕ)
  | reply (c : ℕ)
  | fail (c : ℕ) (text : String)
  | crash
  | restart
  | broken (conn : ℕ)
  | elsewhere (state : server.State)
  | tick (d : ℕ)

variable {server}

/-- The command of a call, with the server's answer. -/
def RedisCall.command (store : RedisRevocationStore) (call : RedisCall) (now : ℕ)
    (state : server.State) : RedisReply × server.State :=
  match call with
  | .revoke jti => (.done, server.setex state now jti store.ttl "1")
  | .isRevoked jti => (.found (server.existsKey state now jti), state)

namespace RedisWorld

def goto (w : RedisWorld server) (c : ℕ) (pc : RedisPc) : RedisWorld server :=
  { w with pc := Function.update w.pc c pc }

/-- `connection` up to the lock: the connection that is kept, if there is one. -/
def readConnection (w : RedisWorld server) (c : ℕ) (retry : Bool) : RedisWorld server :=
  if w.lock.isSome then w
  else
    match w.connection with
    | some conn => w.goto c (.holding retry conn)
    | none => w.goto c (.locking retry)

/-- `connection` from the lock on: the connection another call has put there meanwhile, or a new
one, which the call begins to open. -/
def lockConnection (w : RedisWorld server) (c : ℕ) (retry : Bool) : RedisWorld server :=
  if w.lock.isSome then w
  else
    match w.connection with
    | some conn => w.goto c (.holding retry conn)
    | none => { w with lock := some c, opened := w.opened + 1 }.goto c (.opening retry w.opened)

def resetConnection (w : RedisWorld server) (c : ℕ) : RedisWorld server :=
  if w.lock.isSome then w else { w with connection := none }.goto c (.reading true)

/-- The next section of a call; one that waits or has returned does nothing. -/
def callSection (w : RedisWorld server) (c : ℕ) : RedisWorld server :=
  match w.pc c with
  | .reading retry => w.readConnection c retry
  | .locking retry => w.lockConnection c retry
  | .holding retry conn =>
    { w with sent := w.sent ++ [(c, conn)] }.goto c (.waiting retry conn none)
  | .resetting => w.resetConnection c
  | _ => w

def connected (w : RedisWorld server) (c : ℕ) : RedisWorld server :=
  match w.pc c with
  | .opening retry conn =>
    if w.up then
      { w with
        connection := some conn
        lock := none
        live := Function.update w.live conn true }.goto c (.holding retry conn)
    else w
  | _ => w

def connectFailed (w : RedisWorld server) (c : ℕ) (text : String) : RedisWorld server :=
  match w.pc c with
  | .opening _ _ => { w with lock := none }.goto c (.returned (.error text))
  | _ => w

/-- The server executes the command that came over a live connection. -/
def execute (store : RedisRevocationStore) (w : RedisWorld server) (c : ℕ) (call : RedisCall) :
    RedisWorld server :=
  match w.pc c with
  | .waiting retry conn none =>
    if w.up && w.live conn then
      { w with state := (call.command store w.now w.state).2 }.goto c
        (.waiting retry conn (some (call.command store w.now w.state).1))
    else w
  | _ => w

def reply (w : RedisWorld server) (c : ℕ) : RedisWorld server :=
  match w.pc c with
  | .waiting _ _ (some answer) => w.goto c (.returned (.ok answer))
  | _ => w

/-- A command fails: the first of a call leads to a second attempt. -/
def fail (w : RedisWorld server) (c : ℕ) (text : String) : RedisWorld server :=
  match w.pc c with
  | .waiting false _ _ => w.goto c .resetting
  | .waiting true _ _ => w.goto c (.returned (.error text))
  | _ => w

end RedisWorld

def redisStep (store : RedisRevocationStore) (calls : ℕ → RedisCall) (w : RedisWorld server) :
    RedisEvent server → RedisWorld server
  | .step c => w.callSection c
  | .connected c => w.connected c
  | .connectFailed c text => w.connectFailed c text
  | .execute c => w.execute store c (calls c)
  | .reply c => w.reply c
  | .fail c text => w.fail c text
  | .crash => { w with up := false, live := fun _ => false }
  | .restart => { w with up := true }
  | .broken conn => { w with live := Function.update w.live conn false }
  | .elsewhere state => { w with state }
  | .tick d => { w with now := w.now + d }

/-- A store that keeps no connection, or the connection 0, which is live or not. -/
def storeWith (connection : Option Bool) (up : Bool) (state : server.State) (now : ℕ) :
    RedisWorld server where
  connection := connection.map fun _ => 0
  lock := none
  opened := 1
  live conn := conn == 0 && connection.getD false
  up := up
  state := state
  now := now
  pc _ := .reading false
  sent := []

/-- The world after the events. -/
def redisRun (store : RedisRevocationStore) (calls : ℕ → RedisCall) (w : RedisWorld server)
    (es : List (RedisEvent server)) : RedisWorld server :=
  StepMachine.run (redisStep store calls) w es

/-- The steps along the events, each with the world it finds. -/
def redisSteps (store : RedisRevocationStore) (calls : ℕ → RedisCall) (w : RedisWorld server)
    (es : List (RedisEvent server)) : List (RedisWorld server × RedisEvent server) :=
  StepMachine.taken (redisStep store calls) w es

end TokenKit
