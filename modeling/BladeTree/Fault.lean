namespace BladeTree

/-- Ways in which reading a template could break down: what the reader relies on. Only extensions can
make it break down. -/
inductive Fault where
  /-- An extension emits a token at the offset that would end past the last word. -/
  | offsetOverflow (offset : Nat)
  /-- The lexer takes steps without end at one offset. -/
  | lexerStuck (offset : Nat)
  /-- A content item takes no token. -/
  | builderStuck (token : Nat)
  /-- A token is taken after the last one. -/
  | pastEnd
  /-- A token that the grammar of tokens promises is not there. -/
  | missingToken (token : Nat)
  /-- A node id without a node. -/
  | missingNode (id : Nat)
  /-- A node would end before it starts. -/
  | negativeSpan (id : Nat)
  /-- More frames are closed than were opened. -/
  | negativeDepth
  deriving DecidableEq, Repr

end BladeTree
