import AndroidProjects.Binder.Carried
import AndroidProjects.Binder.Replies
import AndroidProjects.Foundation.Unicode
import AndroidProjects.Servicemanager.Clients

namespace Testserver
open Binder ByteMemory Layout

def helloSvrCmdSayhello : UInt32 := 0

def helloSvrCmdSayhelloTo : UInt32 := 1

def helloSvrCmdSaygoodbye : UInt32 := 0

def helloSvrCmdSaygoodbyeTo : UInt32 := 1

structure Implementation (σ : Type) where
  say : σ → σ
  sayTo : List UInt8 → σ → Int32 × σ

def cString (bs : List UInt8) : List UInt8 := bs.takeWhile (· ≠ 0)

def sizeofName : ℕ := 512

section
variable {A : Abi} {σ : Type}

-- smashed: what becomes of a process whose copy has run past name[512]
def serviceHandler (cmdSay cmdSayTo : UInt32) (impl : Implementation σ)
    (smashed : BinderHandler A σ) : BinderHandler A σ := fun p txn msg reply =>
  let policy := bioGetUint32 A msg
  if txn.code = cmdSay then (0,reply,{p with globals := impl.say p.globals})
  else if txn.code = cmdSayTo then
    let str := bioGetString16 A policy.2
    match str.1 with
    | none => (-1,reply,p)
    | some s =>
      if str.2.1 ≥ sizeofName then smashed p txn str.2.2 reply
      else
        let name := (loadUnits msg.mem s str.2.1).map UInt16.toUInt8
        let out := impl.sayTo (cString name) p.globals
        (0,bioPutUint32 A reply out.1.toUInt32,{p with globals := out.2})
  else (-1,reply,p)

def helloServiceHandler : Implementation σ → BinderHandler A σ → BinderHandler A σ :=
  serviceHandler helloSvrCmdSayhello helloSvrCmdSayhelloTo

def goodbyeServiceHandler : Implementation σ → BinderHandler A σ → BinderHandler A σ :=
  serviceHandler helloSvrCmdSaygoodbye helloSvrCmdSaygoodbyeTo

def sayToMsg (A : Abi) (f : Servicemanager.Frame) (name : List UInt8) : BinderIo :=
  let msg := bioInit A f.msg f.mem f.iodata 512 4
  let msg := bioPutUint32 A msg 0
  bioPutString16X A msg (some name)

def sayTo (cmdSayTo : UInt32) (V : Server A σ) (p : Proc A σ) (f : Servicemanager.Frame)
    (handle : UInt32) (name : List UInt8) (rounds : List CallRound) : Option (Int32 × Proc A σ) :=
  match binderCall V p (sayToMsg A f name) f.reply handle cmdSayTo rounds with
  | none => none
  | some (res,reply,p) =>
    if res ≠ 0 then some (0,p)
    else
      let ret := bioGetUint32 A reply
      some (ret.1.toInt32,(binderDone p ret.2).2)

def sayhelloTo (V : Server A σ) :
    Proc A σ → Servicemanager.Frame → UInt32 → List UInt8 → List CallRound →
      Option (Int32 × Proc A σ) := sayTo helloSvrCmdSayhelloTo V

def saygoodbyeTo (V : Server A σ) :
    Proc A σ → Servicemanager.Frame → UInt32 → List UInt8 → List CallRound →
      Option (Int32 × Proc A σ) := sayTo helloSvrCmdSaygoodbyeTo V

end

end Testserver
