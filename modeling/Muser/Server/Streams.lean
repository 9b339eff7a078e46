import Muser.Engine.Cache
import Mathlib.Data.List.Infix
import Mathlib.Data.List.TakeDrop

/-! # Resumable streams

What a reply has written stays in a bounded buffer under its conversation, so that a client that lost
its connection can read on from the offset it reached. Writers and readers hold the session itself: a
replaced session is cancelled, but those who hold it go on with it. Every event of a run is one locked
section; the clock stands beside the event that reads it.
-/

namespace Muser.Server

open Muser.Engine

def maxStreamBytes : ℕ := 4 * 1024 * 1024

def completedTtl : ℕ := 300

structure Inner where
  bytes : Bytes
  dropped : ℕ
  total : ℕ
  done : Bool
  cancelled : Bool
  completedAt : ℕ
deriving DecidableEq

inductive ReadSnapshot where
  | lost
  | data (bytes : Bytes)
  | pending
  | done
deriving DecidableEq

namespace Inner

def fresh : Inner where
  bytes := []
  dropped := 0
  total := 0
  done := false
  cancelled := false
  completedAt := 0

def append (inner : Inner) (chunk : Bytes) : Bool × Inner :=
  if chunk.isEmpty then (true, inner)
  else if inner.done || inner.cancelled then (false, inner)
  else
    let total := saturatingAdd inner.total chunk.length
    if maxStreamBytes ≤ chunk.length then
      (true, { inner with
        total := total
        dropped := total - maxStreamBytes
        bytes := chunk.drop (chunk.length - maxStreamBytes) })
    else
      let excess := saturatingAdd inner.bytes.length chunk.length - maxStreamBytes
      (true, { inner with
        total := total
        dropped := saturatingAdd inner.dropped excess
        bytes := inner.bytes.drop excess ++ chunk })

def finish (inner : Inner) (now : ℕ) : Inner :=
  if inner.done then inner else { inner with done := true, completedAt := now }

def cancel (inner : Inner) (now : ℕ) : Inner :=
  { inner with cancelled := true, done := true, completedAt := now }

/-- What there is to read at an offset; the end of the buffer is a sum that wraps. -/
def snapshot (inner : Inner) (offset : ℕ) : ReadSnapshot :=
  if offset < inner.dropped then .lost
  else if offset < (inner.dropped + inner.bytes.length) % usizeBound then .data (inner.bytes.drop (offset - inner.dropped))
  else if inner.done then .done
  else .pending

end Inner

structure StreamSession where
  id : String
  startedAt : ℕ
  inner : Inner
deriving DecidableEq

/-- The sessions by conversation, as handles into every session that was ever made. -/
structure StreamManager where
  sessions : String → Option ℕ
  arena : List StreamSession

namespace StreamManager

def empty : StreamManager where
  sessions _ := none
  arena := []

def modify (manager : StreamManager) (handle : ℕ) (change : Inner → Inner) : StreamManager :=
  { manager with arena := manager.arena.modify handle fun session => { session with inner := change session.inner } }

/-- A session is kept while it is open or was completed after the cutoff. -/
def retained (manager : StreamManager) (cutoff handle : ℕ) : Bool :=
  match manager.arena[handle]? with
  | none => false
  | some session => session.inner.completedAt = 0 || cutoff < session.inner.completedAt

def gc (manager : StreamManager) (now : ℕ) : StreamManager :=
  { manager with sessions := fun id => (manager.sessions id).filter (manager.retained (now - completedTtl)) }

/-- Put a fresh session under the conversation. -/
def insert (manager : StreamManager) (id : String) (now : ℕ) : StreamManager where
  sessions other := if other = id then some manager.arena.length else manager.sessions other
  arena := manager.arena ++ [{ id := id, startedAt := now, inner := .fresh }]

def remove (manager : StreamManager) (id : String) : StreamManager :=
  { manager with sessions := fun other => if other = id then none else manager.sessions other }

/-- Cancel what was under the conversation, if anything was. -/
def cancelPrevious (previous : Option ℕ) (manager : StreamManager) (now : ℕ) : StreamManager :=
  match previous with
  | none => manager
  | some handle => manager.modify handle fun inner => inner.cancel now

def createOrReplace (manager : StreamManager) (id : String) (now : ℕ) : StreamManager :=
  let manager := manager.gc now
  cancelPrevious (manager.sessions id) (manager.insert id now) now

def evictAndCancel (manager : StreamManager) (id : String) (now : ℕ) : StreamManager :=
  cancelPrevious (manager.sessions id) (manager.remove id) now

end StreamManager

/-- Where a reader stands: it received bytes from its start on and reads the next ones, until it is told
that they are lost or that there are none. -/
inductive Reading where
  | open
  | lost
  | done
deriving DecidableEq

structure Reader where
  handle : ℕ
  start : ℕ
  received : Bytes
  reading : Reading
deriving DecidableEq

def Reader.offset (reader : Reader) : ℕ := reader.start + reader.received.length

def Reader.told (reader : Reader) : ReadSnapshot → Reader
  | .lost => { reader with reading := .lost }
  | .data bytes => { reader with received := reader.received ++ bytes }
  | .pending => reader
  | .done => { reader with reading := .done }

inductive StreamEvent where
  | append (handle : ℕ) (chunk : Bytes)
  | finish (handle now : ℕ)
  | cancel (handle now : ℕ)
  | createOrReplace (id : String) (now : ℕ)
  | evictAndCancel (id : String) (now : ℕ)
  | gc (now : ℕ)
  | insert (id : String) (now : ℕ)
  | attach (handle start : ℕ)
  | read (reader : ℕ)
deriving DecidableEq

/-- The manager and its readers, and beside each session the bytes it accepted. -/
structure StreamWorld where
  manager : StreamManager
  accepted : List Bytes
  readers : List Reader

namespace StreamWorld

def initial : StreamWorld where
  manager := .empty
  accepted := []
  readers := []

def appended (world : StreamWorld) (handle : ℕ) (chunk : Bytes) : StreamWorld :=
  match world.manager.arena[handle]? with
  | none => world
  | some session =>
    { world with
      manager := world.manager.modify handle fun inner => (inner.append chunk).2
      accepted := if (session.inner.append chunk).1 then world.accepted.modify handle (· ++ chunk) else world.accepted }

/-- A reader asks the session it holds for what stands at its offset. -/
def answer (world : StreamWorld) (reader : Reader) : Reader :=
  match reader.reading, world.manager.arena[reader.handle]? with
  | .open, some session => reader.told (session.inner.snapshot reader.offset)
  | _, _ => reader

def step (world : StreamWorld) : StreamEvent → StreamWorld
  | .append handle chunk => world.appended handle chunk
  | .finish handle now => { world with manager := world.manager.modify handle fun inner => inner.finish now }
  | .cancel handle now => { world with manager := world.manager.modify handle fun inner => inner.cancel now }
  | .createOrReplace id now =>
    { world with manager := world.manager.createOrReplace id now, accepted := world.accepted ++ [[]] }
  | .evictAndCancel id now => { world with manager := world.manager.evictAndCancel id now }
  | .gc now => { world with manager := world.manager.gc now }
  | .insert id now => { world with manager := world.manager.insert id now, accepted := world.accepted ++ [[]] }
  | .attach handle start =>
    if handle < world.manager.arena.length then
      { world with readers := world.readers ++ [{ handle := handle, start := start, received := [], reading := .open }] }
    else world
  | .read reader => { world with readers := world.readers.modify reader world.answer }

def run (world : StreamWorld) (events : List StreamEvent) : StreamWorld := events.foldl step world

end StreamWorld

end Muser.Server
