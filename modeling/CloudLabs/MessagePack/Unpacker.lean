import CloudLabs.MessagePack.Object
import CloudLabs.Parsing.Machine

namespace CloudLabs.MessagePack

open Parsing

-- m_cs with m_trail, the bytes that it waits for. SIZE stands for the states STR_8 to STR_32,
-- BIN_8 to BIN_32 and EXT_8 to EXT_32.
inductive State where
  | HEADER
  | SIZE (type : Raw) (width : Nat)
  | FLOAT
  | DOUBLE
  | UINT (width : Nat)
  | INT (width : Nat)
  | FIXEXT (size : Nat)
  | ARRAY (width : Nat)
  | MAP (width : Nat)
  | VALUE (type : Raw) (trail : Nat)
  deriving DecidableEq, Repr

inductive ContainerType where
  | ARRAY_ITEM
  | MAP_KEY
  | MAP_VALUE
  deriving DecidableEq, Repr

-- An element of the stack of the parser, with the items that the visitor has put into the
-- container so far.
structure StackElem where
  type : ContainerType
  rest : Nat
  items : List Object

-- The exceptions of the unpacker, of the packer and of convert.
inductive Error where
  | parseError
  | depthSizeOverflow
  | containerSizeOverflow
  | typeError
  deriving DecidableEq, Repr

-- unpack_limit: the other limits are above every uint32_t.
def DEPTH_LIMIT : Nat := 0xffffffff

def State.trail : State → Nat
  | HEADER => 1
  | SIZE _ width => width
  | FLOAT => 4
  | DOUBLE => 8
  | UINT width => width
  | INT width => width
  | FIXEXT size => size + 1
  | ARRAY width => width
  | MAP width => width
  | VALUE _ trail => trail

-- The parser always waits for something: a value without bytes is visited at once.
structure Context where
  cs : State
  waits : 0 < cs.trail
  stack : List StackElem

def Context.header (stack : List StackElem) : Context := ⟨.HEADER, Nat.zero_lt_one, stack⟩

-- next_cs, and the table of the trails.
def nextCs (selector : Nat) : State :=
  match selector with
  | 0xc4 => .SIZE .BIN 1
  | 0xc5 => .SIZE .BIN 2
  | 0xc6 => .SIZE .BIN 4
  | 0xc7 => .SIZE .EXT 1
  | 0xc8 => .SIZE .EXT 2
  | 0xc9 => .SIZE .EXT 4
  | 0xca => .FLOAT
  | 0xcb => .DOUBLE
  | 0xcc => .UINT 1
  | 0xcd => .UINT 2
  | 0xce => .UINT 4
  | 0xcf => .UINT 8
  | 0xd0 => .INT 1
  | 0xd1 => .INT 2
  | 0xd2 => .INT 4
  | 0xd3 => .INT 8
  | 0xd4 => .FIXEXT 1
  | 0xd5 => .FIXEXT 2
  | 0xd6 => .FIXEXT 4
  | 0xd7 => .FIXEXT 8
  | 0xd8 => .FIXEXT 16
  | 0xd9 => .SIZE .STR 1
  | 0xda => .SIZE .STR 2
  | 0xdb => .SIZE .STR 4
  | 0xdc => .ARRAY 2
  | 0xdd => .ARRAY 4
  | 0xde => .MAP 2
  | _ => .MAP 4

theorem trail_nextCs (selector : Nat) : 0 < (nextCs selector).trail := by
  unfold nextCs
  split <;> exact Nat.zero_lt_succ _

-- What the parser does at a byte or with a trail: it visits a value, starts an aggregate, or
-- waits for what follows.
inductive Event where
  | visit (obj : Object)
  | start (type : ContainerType) (size : Nat)
  | wait (cs : State) (waits : 0 < cs.trail)

-- visit_negative_integer
def visitNegativeInteger (v : Int) : Object :=
  if 0 ≤ v then .positiveInteger (UInt64.ofNat v.toNat) else .negativeInteger v

def value (type : Raw) (trail : Nat) : Event :=
  if h : trail = 0 then .visit (.raw type []) else .wait (.VALUE type trail) (Nat.pos_of_ne_zero h)

def header (selector : Nat) : Except Error Event :=
  if selector ≤ 0x7f then pure (.visit (.positiveInteger (UInt64.ofNat selector)))
  else if 0xe0 ≤ selector then pure (.visit (visitNegativeInteger (selector - 0x100)))
  else if 0xc4 ≤ selector then pure (.wait (nextCs selector) (trail_nextCs selector))
  else if 0xa0 ≤ selector ∧ selector ≤ 0xbf then pure (value .STR (selector &&& 0x1f))
  else if 0x90 ≤ selector ∧ selector ≤ 0x9f then pure (.start .ARRAY_ITEM (selector &&& 0x0f))
  else if selector ≤ 0x8f then pure (.start .MAP_KEY (selector &&& 0x0f))
  else if selector = 0xc2 then pure (.visit (.boolean false))
  else if selector = 0xc3 then pure (.visit (.boolean true))
  else if selector = 0xc0 then pure (.visit .nil)
  else throw .parseError

-- The cases of execute, with the bytes that have been waited for. Of a value these are what the
-- object refers to: the default reference function has nothing copied.
def execute (cs : State) (n : Bytes) : Except Error Event :=
  match cs with
  | .HEADER => header (load n)
  | .SIZE .EXT _ => pure (value .EXT (load n + 1))
  | .SIZE type _ => pure (value type (load n))
  | .FLOAT => pure (.visit (.float32 (UInt32.ofNat (load n))))
  | .DOUBLE => pure (.visit (.float64 (UInt64.ofNat (load n))))
  | .UINT _ => pure (.visit (.positiveInteger (UInt64.ofNat (load n))))
  | .INT _ => pure (.visit (visitNegativeInteger (loadInt n)))
  | .FIXEXT _ => pure (.visit (.raw .EXT n))
  | .ARRAY _ => pure (.start .ARRAY_ITEM (load n))
  | .MAP _ => pure (.start .MAP_KEY (load n))
  | .VALUE type _ => pure (.visit (.raw type n))

-- unpack_stack::consume: an object is the next item of the innermost container, which may be
-- whole with it.
def consume (obj : Object) : List StackElem → Advance Context Object
  | [] => .done obj
  | e :: stack =>
      let items := e.items ++ [obj]
      match e.type with
      | .ARRAY_ITEM =>
          if e.rest = 1 then consume (.array items) stack
          else .more (.header ({ e with rest := e.rest - 1, items } :: stack))
      | .MAP_KEY => .more (.header ({ e with type := .MAP_VALUE, items } :: stack))
      | .MAP_VALUE =>
          if e.rest = 1 then consume (.map items) stack
          else .more (.header (⟨.MAP_KEY, e.rest - 1, items⟩ :: stack))

def ContainerType.close (type : ContainerType) (items : List Object) : Object :=
  match type with
  | ARRAY_ITEM => .array items
  | MAP_KEY | MAP_VALUE => .map items

-- start_aggregate. The stack of the visitor has one element more than that of the parser.
def startAggregate (type : ContainerType) (size : Nat) (stack : List StackElem) :
    Except Error (Advance Context Object) :=
  if DEPTH_LIMIT < stack.length + 1 then throw .depthSizeOverflow
  else if size = 0 then pure (consume (type.close []) stack)
  else pure (.more (.header (⟨type, size, []⟩ :: stack)))

def Context.step (context : Context) (n : Bytes) : Except Error (Advance Context Object) := do
  match ← execute context.cs n with
  | .visit obj => return consume obj context.stack
  | .start type size => startAggregate type size context.stack
  | .wait cs waits => return .more ⟨cs, waits, context.stack⟩

-- The loop of context::execute. unpacker::next calls it on what has come and starts the next
-- object when it has one.
def unpacker : Machine Error Context UInt8 Object where
  start := .header []
  need context := context.cs.trail
  need_pos context := context.waits
  step := Context.step

end CloudLabs.MessagePack
