import Autoscaling.Backend

namespace Autoscaling

structure Session where
  backend : Backend := {}
  kept : Dict PolicySet := ∅
deriving DecidableEq

namespace Session

inductive Call
  | write (w : Store.Write)
  | ask (q : Store.Query)
  | count
  | keep (name : String)
  | recall (name : String)
deriving DecidableEq

structure Request where
  handle : Nat := 0
  elapsed : Duration := .zero
  call : Call
deriving DecidableEq

inductive Reply
  | done
  | answer (a : Store.Answer)
  | count (n : Nat)
  | kept (set : Option PolicySet)
deriving DecidableEq

def keep (s : Session) (name : String) : Store.Answer → Session
  | .all set => { s with kept := s.kept.insert name set }
  | _ => s

def perform (s : Session) (r : Request) : Session × Reply :=
  match r.call with
  | .write w => ({ s with backend := s.backend.write w r.elapsed }, .done)
  | .ask q =>
    let (backend, a) := s.backend.ask q r.elapsed
    ({ s with backend }, .answer a)
  | .count => (s, .count s.backend.store.size)
  | .keep name =>
    let (backend, a) := s.backend.ask .all r.elapsed
    ({ s with backend }.keep name a, .done)
  | .recall name => (s, .kept (s.kept.get? name))

def run : Session → List Request → Session × List Reply
  | s, [] => (s, [])
  | s, r :: rest =>
    let (s, reply) := s.perform r
    let (last, replies) := s.run rest
    (last, reply :: replies)

end Session

end Autoscaling
